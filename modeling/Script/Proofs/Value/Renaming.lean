import Script.Proofs.Evaluation.Simulation
import Script.Proofs.Grammar.Formed
import Script.Proofs.Grammar.Renaming
import Script.Proofs.Value.Function

/-! Values whose functions run formed code, and the same values with other names in that code. -/

namespace Script

/-- A function that formed code may come to call: one of the host that does what it may, or one that
is declared in formed code. -/
def Callable.Formed (named : Token → Prop) (hosts : Native → Prop) : Callable → Prop
  | .host _ _ native => hosts native
  | .declared declaration _ =>
    (Stmt.function declaration.name declaration.parameters declaration.body).Formed named

def Value.Formed (named : Token → Prop) (hosts : Native → Prop) : Value → Prop
  | .function _ callable => callable.Formed named hosts
  | _ => True

/-- All functions that are bound to a name or kept in an array are formed. -/
structure Machine.Formed (named : Token → Prop) (hosts : Native → Prop)
    (machine : Machine) : Prop where
  bound : ∀ {id : ScopeId} {name : String} {value : Value},
    machine.scopes.own? id name = some value → value.Formed named hosts
  kept : ∀ (id : ArrayId), ∀ value ∈ machine.heap.elements id, value.Formed named hosts

/-- A declaration with other names. -/
def FunctionDecl.rename (change : String → String) (declaration : FunctionDecl) : FunctionDecl :=
  ⟨declaration.name.rename change, declaration.parameters.map (Token.rename change),
    Stmt.renameAll change declaration.body⟩

/-- Functions of the host keep their names. -/
def Callable.rename (change : String → String) : Callable → Callable
  | .host name arity native => .host name arity native
  | .declared declaration closure => .declared (declaration.rename change) closure

abbrev Value.rename (change : String → String) : Value → Value :=
  Value.mapCallable (Callable.rename change)

variable {named : Token → Prop} {hosts : Native → Prop} {change : String → String}

theorem Callable.arity_rename (callable : Callable) :
    (callable.rename change).arity = callable.arity := by
  cases callable with
  | host name arity native => rfl
  | declared declaration closure => exact List.length_map (Token.rename change)

/-- Nothing shows another name if none is another. -/
theorem Value.text_rename_id (heap : Heap) (shown : Value) :
    (shown.rename id).text (heap.map (Value.rename id)) = shown.text heap := by
  have texts : Callable.text ∘ Callable.rename id = Callable.text := by
    funext callable
    cases callable <;> rfl
  rw [Value.text, Value.textWithin_mapCallable, texts, Value.textShowing_text, Value.text]

theorem Value.Formed.literal (literal : Literal) : literal.value.Formed named hosts := by
  cases literal <;> trivial

namespace Machine.Formed

variable {machine : Machine}

theorem get? (formed : machine.Formed named hosts) {id : ScopeId} {name : String} {value : Value}
    (found : machine.scopes.get? id name = some value) : value.Formed named hosts := by
  obtain ⟨owner, _, owns⟩ := Option.bind_eq_some_iff.mp found
  exact formed.bound owns

theorem element (formed : machine.Formed named hosts) (id : ArrayId) (place : Nat) :
    ((machine.heap.elements id).getD place .nil).Formed named hosts := by
  rw [Array.getD_eq_getD_getElem?]
  cases found : (machine.heap.elements id)[place]? with
  | none => trivial
  | some value => exact formed.kept id value (Array.mem_of_getElem? found)

theorem withActive (formed : machine.Formed named hosts) (active : ScopeId) :
    Machine.Formed named hosts { machine with active := active } := ⟨formed.bound, formed.kept⟩

theorem enter (formed : machine.Formed named hosts) (parent : Option ScopeId) :
    (machine.enter parent).Formed named hosts := by
  refine ⟨fun {id name value} found => ?_, formed.kept⟩
  exact formed.bound ((ScopeTree.own?_add machine.scopes parent id name).symm.trans found)

theorem define (formed : machine.Formed named hosts) {value : Value}
    (ofValue : value.Formed named hosts) (scope : ScopeId) (name : String) :
    Machine.Formed named hosts
      { machine with scopes := machine.scopes.define scope name value } := by
  refine ⟨fun {id sought other} found => ?_, formed.kept⟩
  by_cases made : scope < machine.scopes.size
  · rw [ScopeTree.own?_define _ _ _ _ _ _ made] at found
    split at found
    · cases found
      exact ofValue
    · exact formed.bound found
  · rw [ScopeTree.own?_define_of_absent (Nat.le_of_not_lt made)] at found
    exact formed.bound found

theorem addArray (formed : machine.Formed named hosts) {items : List Value}
    (ofItems : ∀ item ∈ items, item.Formed named hosts) :
    Machine.Formed named hosts { machine with heap := machine.heap.add items.toArray } := by
  refine ⟨formed.bound, fun id value member => ?_⟩
  rw [Heap.elements_add] at member
  split at member
  · exact ofItems value (List.mem_toArray.mp member)
  · exact formed.kept id value member

/-- An array may be changed in any way that brings in nothing but one formed value. -/
theorem modifyArray (formed : machine.Formed named hosts) {array : ArrayId} {value : Value}
    {update : Array Value → Array Value}
    (only : ∀ items item, item ∈ update items → item ∈ items ∨ item = value)
    (ofValue : value.Formed named hosts) :
    Machine.Formed named hosts
      { machine with heap := ⟨machine.heap.arrays.modify array update⟩ } := by
  refine ⟨formed.bound, fun id item member => ?_⟩
  rw [Heap.elements_modify] at member
  split at member
  · rcases only _ item member with old | rfl
    · exact formed.kept id item old
    · exact ofValue
  · exact formed.kept id item member

theorem write (formed : machine.Formed named hosts) {value : Value}
    (ofValue : value.Formed named hosts) (array : ArrayId) (place : Nat) :
    Machine.Formed named hosts { machine with heap := machine.heap.write array place value } :=
  formed.modifyArray (fun _ _ => Array.mem_or_eq_of_mem_setIfInBounds) ofValue

theorem append (formed : machine.Formed named hosts) {value : Value}
    (ofValue : value.Formed named hosts) (array : ArrayId) :
    Machine.Formed named hosts { machine with heap := machine.heap.append array value } :=
  formed.modifyArray (fun _ _ => Array.mem_push.mp) ofValue

end Machine.Formed
end Script
