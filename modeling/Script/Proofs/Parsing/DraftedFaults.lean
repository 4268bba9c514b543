import Mathlib.Tactic.Abel
import Script.Proofs.Grammar.Draft
import Script.Proofs.Parsing.Recovery

/-! What parsing notes without giving anything up. The complaints about a program of the relaxed
grammar are those that can be counted in its draft, and no others. -/

namespace Script.Grammar

/-- The tokens derive a tree in the lenient grammar with just the faults of the draft. The tree may
be assigned to if the draft may. -/
structure Draft.Derives (draft : Draft) (level : Level) (tokens : List Token) (tree : Expr)
    (faults : List ParseError) : Prop where
  phrase : Phrase .lenient level tokens tree faults
  same : (faults : Multiset ParseError) = draft.faults
  assigned : ∀ value, (tree.assigned? value).isSome = draft.assignable

/-- The items too many in a longer list. -/
theorem excess_cons {tokens : List Token} {draft : Draft} (starts : tokens.head? = some draft.first)
    (count : Nat) (rest : List Draft) :
    excess true count tokens ++ (rest.drop (255 - (count + 1))).map Draft.fault =
      ((draft :: rest).drop (255 - count)).map Draft.fault := by
  by_cases full : 255 ≤ count
  · simp [excess, full, starts, Draft.fault, Nat.sub_eq_zero_of_le full,
      Nat.sub_eq_zero_of_le (Nat.le_succ_of_le full)]
  · have step : 255 - count = 255 - (count + 1) + 1 := by omega
    simp [excess, full, step]

/-- Items that derive one by one are the items of a list, and its faults are theirs and those of the
items too many. -/
theorem items_of_drafts {items : List (List Token × Draft)}
    (drafted : ∀ item ∈ items, Drafted .assignment item.1 item.2)
    (each : ∀ item ∈ items, ∃ tree faults, item.2.Derives .assignment item.1 tree faults) :
    ∃ parts : List (Piece Expr), parts.map Piece.tokens = items.map Prod.fst ∧
      (∀ part ∈ parts, Phrase .lenient .assignment part.tokens part.tree part.faults) ∧
      ∀ count,
        (itemFaults false count parts : Multiset ParseError) =
          Draft.faultsAll (items.map Prod.snd) ∧
        (itemFaults true count parts : Multiset ParseError) =
          Draft.faultsAll (items.map Prod.snd) +
            (((items.map Prod.snd).drop (255 - count)).map Draft.fault : List ParseError) := by
  induction items with
  | nil => exact ⟨[], rfl, by simp, fun count => ⟨rfl, by simp [itemFaults, Draft.faultsAll]⟩⟩
  | cons item items ih =>
    obtain ⟨first, rest⟩ := List.forall_mem_cons.mp drafted
    obtain ⟨⟨tree, faults, derives⟩, others⟩ := List.forall_mem_cons.mp each
    obtain ⟨parts, tokens, phrases, counted⟩ := ih rest others
    refine ⟨⟨item.1, tree, faults⟩ :: parts, by rw [List.map_cons, tokens, List.map_cons],
      List.forall_mem_cons.mpr ⟨derives.phrase, phrases⟩, fun count => ?_⟩
    obtain ⟨unlimited, limited⟩ := counted (count + 1)
    simp only [itemFaults, Draft.faultsAll, List.map_cons, ← Multiset.coe_add, unlimited, limited,
      derives.same, ← excess_cons first.starts]
    exact ⟨by simp [excess], by abel⟩

theorem Draft.Derives.inside {draft : Draft} {level inner : Level} {tokens : List Token}
    {tree : Expr} {faults : List ParseError} (derives : draft.Derives inner tokens tree faults)
    (next : level.inner? = some inner) : draft.Derives level tokens tree faults :=
  { derives with phrase := .inside next derives.phrase }

/-- What is assigned to is assigned, or it is at fault and the value is dropped. -/
theorem Draft.Derives.assign {target value : Draft} {equals : Token}
    {targetTokens tokens : List Token} {left right : Expr}
    {leftFaults rightFaults : List ParseError}
    (before : target.Derives .disjunction targetTokens left leftFaults)
    (found : equals.is .equal = true)
    (after : value.Derives .assignment tokens right rightFaults) :
    ∃ tree faults, (Draft.assign target equals value).Derives .assignment
      (targetTokens ++ equals :: tokens) tree faults := by
  have assigned := before.assigned right
  cases shape : left.assigned? right with
  | some tree =>
    rw [shape] at assigned
    have wellTargeted : target.assignable = true := assigned.symm
    refine ⟨tree, leftFaults ++ rightFaults,
      (Rule.phrase_assigned found before.phrase after.phrase).1 tree shape, ?_, ?_⟩
    · simp [faults, wellTargeted, ← before.same, ← after.same]
    · intro further
      unfold Expr.assigned? at shape
      split at shape <;> cases shape <;> rfl
  | none =>
    rw [shape] at assigned
    have badlyTargeted : target.assignable = false := assigned.symm
    refine ⟨left, leftFaults ++ rightFaults ++ [⟨.invalidTarget, equals⟩],
      (Rule.phrase_assigned found before.phrase after.phrase).2 shape rfl, ?_, ?_⟩
    · rw [← Multiset.coe_add, ← Multiset.coe_add, before.same, after.same, faults, badlyTargeted]
      rfl
    · exact fun further => (before.assigned further).trans badlyTargeted

/-- Whatever is drafted derives in the lenient grammar, with the faults of the draft. -/
theorem Drafted.derives {level : Level} {tokens : List Token} {draft : Draft}
    (drafted : Drafted level tokens draft) :
    ∃ tree faults, draft.Derives level tokens tree faults := by
  induction drafted with
  | inside next drafted ih =>
    obtain ⟨tree, faults, derives⟩ := ih
    exact ⟨tree, faults, derives.inside next⟩
  | assign left equals right ihLeft ihRight =>
    obtain ⟨_, _, before⟩ := ihLeft
    obtain ⟨_, _, after⟩ := ihRight
    exact before.assign equals after
  | join joins before found after ihBefore ihAfter =>
    obtain ⟨_, _, left⟩ := ihBefore
    obtain ⟨_, _, right⟩ := ihAfter
    refine ⟨_, _, .join joins left.phrase found right.phrase, ?_, ?_⟩
    · simp [Draft.faults, ← left.same, ← right.same]
    · intro value
      cases joins <;> rfl
  | sign found right ih =>
    obtain ⟨_, _, operand⟩ := ih
    exact ⟨_, _, .sign found operand.phrase, operand.same, fun _ => rfl⟩
  | call function opens each listed closes ihFunction ihEach =>
    obtain ⟨_, _, callee⟩ := ihFunction
    obtain ⟨parts, tokens, phrases, counted⟩ := items_of_drafts each ihEach
    refine ⟨_, _, .call callee.phrase opens phrases (tokens ▸ listed) nofun closes, ?_,
      fun _ => rfl⟩
    rw [← Multiset.coe_add, callee.same, (counted 0).2, Draft.faults, add_assoc]
  | subscript left opens place closes ihLeft ihPlace =>
    obtain ⟨_, _, object⟩ := ihLeft
    obtain ⟨_, _, index⟩ := ihPlace
    refine ⟨_, _, .subscript object.phrase opens index.phrase closes, ?_, fun _ => rfl⟩
    simp [Draft.faults, ← object.same, ← index.same]
  | leaf leaf =>
    refine ⟨_, _, Rule.phrase_leaf leaf, rfl, fun value => ?_⟩
    unfold Token.leaf? at leaf
    split at leaf <;> cases leaf <;> rename_i kind <;>
      simp [Expr.assigned?, Draft.assignable, Token.is, kind, Kind.tag?]
  | group opens drafted closes ih =>
    obtain ⟨_, _, inner⟩ := ih
    exact ⟨_, _, .group opens inner.phrase closes, inner.same, fun _ => rfl⟩
  | array opens each listed closes ih =>
    obtain ⟨parts, tokens, phrases, counted⟩ := items_of_drafts each ih
    exact ⟨_, _, .array opens phrases (tokens ▸ listed) closes, (counted 0).1, fun _ => rfl⟩

end Script.Grammar
