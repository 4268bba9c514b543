import Script.Proofs.Parsing.OutlinedFaults
import Script.Proofs.Parsing.SentencePredicts

/-! What gives a declaration up is reported at the earliest token that no program of the relaxed
grammar goes on with. -/

namespace Script

namespace Grammar

mutual

theorem Draft.faults_mild : ∀ draft : Draft, ∀ fault ∈ draft.faults, fault.cause.unwinds = false
  | .leaf _ => by simp [faults]
  | .group _ inner => inner.faults_mild
  | .array _ elements => Draft.faultsAll_mild elements
  | .sign _ operand => operand.faults_mild
  | .join left right => by
    simp only [faults, Multiset.mem_add]
    rintro fault (inLeft | inRight)
    · exact left.faults_mild fault inLeft
    · exact right.faults_mild fault inRight
  | .call callee arguments => by
    simp only [faults, Multiset.mem_add, Multiset.mem_coe, List.mem_map]
    rintro fault ((inCallee | inArguments) | ⟨argument, _, rfl⟩)
    · exact callee.faults_mild fault inCallee
    · exact Draft.faultsAll_mild arguments fault inArguments
    · rfl
  | .subscript object index => by
    simp only [faults, Multiset.mem_add]
    rintro fault (inObject | inIndex)
    · exact object.faults_mild fault inObject
    · exact index.faults_mild fault inIndex
  | .assign target equals value => by
    simp only [faults, Multiset.mem_add]
    rintro fault ((inTarget | inValue) | own)
    · exact target.faults_mild fault inTarget
    · exact value.faults_mild fault inValue
    · split at own
      · simp at own
      · rw [Multiset.mem_singleton.mp own]
        rfl

theorem Draft.faultsAll_mild :
    ∀ drafts : List Draft, ∀ fault ∈ Draft.faultsAll drafts, fault.cause.unwinds = false
  | [] => by simp
  | draft :: rest => by
    simp only [Draft.faultsAll, Multiset.mem_add]
    rintro fault (inFirst | inRest)
    · exact draft.faults_mild fault inFirst
    · exact Draft.faultsAll_mild rest fault inRest

end

mutual

theorem Outline.faults_mild :
    ∀ outline : Outline, ∀ fault ∈ outline.faults, fault.cause.unwinds = false
  | .node parameters drafts inner => by
    simp only [faults, Multiset.mem_add, parameterFaults, Multiset.mem_coe, List.mem_map]
    rintro fault ((⟨name, _, rfl⟩ | inDrafts) | inside)
    · rfl
    · exact Draft.faultsAll_mild drafts fault inDrafts
    · exact Outline.faultsAll_mild inner fault inside

theorem Outline.faultsAll_mild :
    ∀ outlines : List Outline, ∀ fault ∈ Outline.faultsAll outlines, fault.cause.unwinds = false
  | [] => by simp
  | outline :: rest => by
    simp only [Outline.faultsAll, Multiset.mem_add]
    rintro fault (inFirst | inRest)
    · exact outline.faults_mild fault inFirst
    · exact Outline.faultsAll_mild rest fault inRest

end

end Grammar

open Grammar

/-- A program of the relaxed grammar is parsed without giving anything up. -/
theorem Rule.fault?_of_mem_programTexts {tokens : List Token} (member : tokens ∈ programTexts) :
    (declarations false tokens).fault? = none := by
  obtain ⟨outlines, relaxed⟩ := member
  obtain ⟨statements, faults, program, counted⟩ := relaxed.derives
  have accepts := (Composes.of_program program).accepts (TokenStream.missingLast tokens)
  obtain ⟨moved, notes, here, noted⟩ := accepts.eq
  rw [here, Outcome.fault?_eq_none]
  intro note member
  have inFaults : note.fault (TokenStream.missingLast tokens) ∈ faults :=
    noted ▸ List.mem_map_of_mem member
  have inOutlines := Multiset.mem_coe.mpr inFaults
  rw [counted] at inOutlines
  exact Outline.faultsAll_mild outlines _ inOutlines

/-- What is parsed without giving anything up is a program of the relaxed grammar. -/
theorem Rule.mem_programTexts_of_fault? {tokens : List Token}
    (mild : (declarations false tokens).fault? = none) : tokens ∈ programTexts := by
  have predicts : Predicts programTexts (declarations false) tokens := declarations_predict_programs
  obtain ⟨taken, member, statements, rest, split, leaves⟩ := predicts.leads.whole mild
  obtain ⟨moved, notes, here⟩ := leaves.eq
  have derives : (declarations false tokens).Derives (TokenStream.missingLast tokens) _ :=
    declarations_derive_program
  rw [here] at mild derives
  have tolerated : Outcome.Tolerated .lenient notes := by
    intro note member
    have kept := Outcome.fault?_eq_none.mp mild note member
    cases cause : note.cause <;> simp [cause, ParseCause.unwinds, Mode.tolerates] at kept ⊢
  obtain ⟨_, _, _, rfl | ⟨impossible, _⟩⟩ := derives .lenient tolerated
  · rwa [← split, List.append_nil]
  · cases impossible

namespace TokenStream

/-- All that parsing a program complains about, in order. -/
def programComplaints (stream : TokenStream) : List Complaint :=
  (Rule.declarations false stream.pending).complaints

theorem program_eq (stream : TokenStream) :
    ∃ statements, stream.program.1 = if stream.programComplaints = [] then .ok statements
      else .error (stream.programComplaints.map stream.blame) := by
  unfold program programComplaints
  cases Rule.declarations false stream.pending with
  | stopped complaint within notes => exact ⟨[], by simp [Outcome.complaints]⟩
  | accepted statements rest moved notes =>
    refine ⟨statements, ?_⟩
    cases notes <;> simp [conclude, Outcome.complaints]

/-- The token that a complaint is about, by its place among those to be parsed. -/
theorem blame_eq (stream : TokenStream) {complaint : Complaint} {index : Nat}
    (place : complaint.remaining = stream.pending.drop index) :
    stream.blame complaint = ⟨complaint.cause, stream.pending[index]?.getD stream.last⟩ := by
  rw [blame, place, List.headD_eq_head?_getD, List.head?_drop]

/-- Parsing a program gives nothing up exactly if it belongs to the relaxed grammar. Otherwise the
tokens before the first one that is blamed for giving something up can be completed to a program,
and no longer with that token; at the end mark, what stands before it is no program. -/
theorem faults_are_earliest (tokens : List Token) :
    let stream := ofList tokens
    let pending := tokens.takeWhile (!·.is .endOfText)
    let fault? := stream.programComplaints.find? (·.cause.unwinds)
    (∃ statements, stream.program.1 = if stream.programComplaints = [] then .ok statements
      else .error (stream.programComplaints.map stream.blame)) ∧
    (fault? = none ↔ ∃ outlines, OutlinedProgram pending outlines) ∧
    ∀ fault, fault? = some fault → ∃ index ≤ pending.length,
      fault.remaining = pending.drop index ∧
      stream.blame fault = ⟨fault.cause, pending[index]?.getD stream.last⟩ ∧
      (∃ more outlines, OutlinedProgram (pending.take index ++ more) outlines) ∧
      (index < pending.length →
        ¬∃ more outlines, OutlinedProgram (pending.take (index + 1) ++ more) outlines) ∧
      (index = pending.length → ¬∃ outlines, OutlinedProgram pending outlines) := by
  intro stream pending fault?
  have predicts : Predicts programTexts (Rule.declarations false) pending :=
    Rule.declarations_predict_programs
  refine ⟨stream.program_eq, ⟨Rule.mem_programTexts_of_fault?, Rule.fault?_of_mem_programTexts⟩, ?_⟩
  intro fault found
  obtain ⟨taken, more, split, member⟩ := predicts.leads.part fault found
  have place : fault.remaining = pending.drop taken.length := by rw [← split, List.drop_left]
  have before : pending.take taken.length = taken := by rw [← split, List.take_left]
  have bound : taken.length ≤ pending.length := by
    rw [← split, List.length_append]
    exact Nat.le_add_right _ _
  refine ⟨taken.length, bound, place, stream.blame_eq place, ⟨more, by rwa [before]⟩, ?_, ?_⟩
  · rintro inside ⟨more, relaxed⟩
    have first : fault.remaining = [pending[taken.length]] ++ pending.drop (taken.length + 1) := by
      rw [place, List.drop_eq_getElem_cons inside]
      rfl
    have shared : pending.take (taken.length + 1) ≠ [] :=
      List.ne_nil_of_length_pos (by rw [List.length_take]; omega)
    have warned := (predicts.foretells _ _ more shared (List.take_append_drop _ pending).symm).warns
      fault _ found (by simp) first
    exact warned (Rule.fault?_of_mem_programTexts relaxed)
  · rintro - relaxed
    cases found.symm.trans (Rule.fault?_of_mem_programTexts relaxed)

end TokenStream

end Script
