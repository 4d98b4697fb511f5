import LineScript.Proofs.Lockstep
import LineScript.Proofs.Reading
import Mathlib.Logic.Relation

/-!
Where the values of variables come from. Main statement: every value that a run leaves in the store was
assigned by a line of the script and came to its variable by copies.
-/

namespace LineScript

namespace Script

/-- A line of the script assigns that value to that variable. -/
def Assigns (script : Script) (name value : Text) : Prop :=
  ∃ line ∈ script.lines, line.command = some (.assign name value)

/-- A line of the script copies the second variable into the first. -/
def Copies (script : Script) (target source : Text) : Prop :=
  ∃ line ∈ script.lines, line.command = some (.copy target source)

end Script

namespace Store

variable {script : Script} {store after : Store}

/-- Each variable that has a value is assigned by a line, and its value is assigned to a variable from
which a chain of copies leads to it. -/
def ComesFrom (store : Store) (script : Script) : Prop :=
  ∀ name value, store.lookup name = some value →
    (∃ first, script.Assigns name first) ∧
      ∃ origin, Relation.ReflTransGen script.Copies name origin ∧ script.Assigns origin value

theorem comesFrom_empty (script : Script) : ComesFrom {} script := by
  intro name value h
  cases h

theorem comesFrom_assign {name value : Text} (h : store.ComesFrom script)
    (ha : script.Assigns name value) : (store.assign name value).ComesFrom script := by
  intro key v hv
  rw [lookup_assign] at hv
  split at hv
  · rename_i hkey
    cases hv
    rw [hkey]
    exact ⟨⟨value, ha⟩, name, .refl, ha⟩
  · exact h key v hv

/-- A copy lengthens the chain of its source by one; the target has an assignment of its own, since
it has a value before the copy. -/
theorem comesFrom_copy {source target : Text} (h : store.ComesFrom script)
    (hc : script.Copies target source) (hcopy : store.copy? source target = some after) :
    after.ComesFrom script := by
  unfold copy? at hcopy
  split at hcopy
  · rename_i value old hsource htarget
    cases hcopy
    intro key v hv
    rw [lookup_assign] at hv
    split at hv
    · rename_i hkey
      cases hv
      rw [hkey]
      obtain ⟨_, origin, hchain, ha⟩ := h source value hsource
      exact ⟨(h target old htarget).1, origin, hchain.head hc, ha⟩
    · exact h key v hv
  · cases hcopy

end Store

namespace Engine

variable {σ : Type} {script : Script} {store after : Store} {line : Line}

theorem comesFrom_effect {converter : Converter} (hline : line ∈ script.lines)
    (h : store.ComesFrom script) (he : effect converter store line.command = .update after) :
    after.ComesFrom script := by
  cases hc : line.command with
  | none =>
    rw [hc] at he
    cases he
    exact h
  | some command =>
    rw [hc] at he
    cases command with
    | label =>
      cases he
      exact h
    | assign target value =>
      cases he
      exact Store.comesFrom_assign h ⟨line, hline, hc⟩
    | copy target source =>
      cases he
      cases hcopy : store.copy? source target with
      | none => exact h
      | some after => exact Store.comesFrom_copy h ⟨line, hline, hc⟩ hcopy
    | branch b =>
      simp only [effect] at he
      cases hb : b.target store <;> simp only [hb, Option.elim] at he
      · cases he
        exact h
      · cases he
    | halt | leave | call | identify | convert | say => cases he

theorem comesFrom_act {setting : Setting σ} {s : State σ} (hline : line ∈ script.lines)
    (h : s.store.ComesFrom script) : (act setting line.command s).2.store.ComesFrom script := by
  rw [act_eq_perform]
  cases he : effect setting.converter s.store line.command with
  | update after => exact comesFrom_effect hline h he
  | print texts =>
    simp only [perform]
    split <;> exact h
  | enter | leave | halt => exact h

theorem comesFrom_run (setting : Setting σ) (out : σ) :
    (run setting out).2.store.ComesFrom setting.script :=
  run_invariant (fun s => s.store.ComesFrom setting.script)
    (fun _ hline _ hs => comesFrom_act hline hs) (Store.comesFrom_empty setting.script)

end Engine

theorem Script.WasRead.isAssignable {script : Script} {name value : Text} (h : script.WasRead)
    (ha : script.Assigns name value) : Command.IsAssignable value := by
  obtain ⟨line, hline, hc⟩ := ha
  rw [h.command_eq hline] at hc
  exact Command.isAssignable_of_read? hc

theorem Store.valueOf_eq_nil_iff {store : Store} {name : Text}
    (h : ∀ value, store.lookup name = some value → value ≠ []) :
    store.valueOf name = [] ↔ store.lookup name = none := by
  unfold valueOf
  cases hl : store.lookup name with
  | none => simp
  | some value => simpa using h value hl

/-- Whatever the outcome of a run, each variable that has a value is assigned by a line of the script,
and its value stands in an assignment from which a chain of copies leads to it. So values are trimmed
and neither empty nor bracketed names, and a variable reads as empty only if it has no value. -/
theorem store_comes_from_script {σ : Type} (session : Session) (hread : session.script.WasRead)
    (sink : Sink σ) (out : σ) :
    let store := (session.run sink out).2.2.store
    (∀ name value, store.lookup name = some value →
      (∃ first, session.script.Assigns name first) ∧
      (∃ origin, Relation.ReflTransGen session.script.Copies name origin ∧
        session.script.Assigns origin value) ∧
      value ≠ [] ∧ Text.trim value = value ∧
      ∀ other, isName other = true → value ≠ ['['] ++ other ++ [']']) ∧
    ∀ name, store.valueOf name = [] ↔ store.lookup name = none := by
  intro store
  have hfrom : store.ComesFrom session.script :=
    Engine.comesFrom_run (session.setting sink) out
  have hvalue (name value : Text) (hl : store.lookup name = some value) :
      Command.IsAssignable value := by
    obtain ⟨_, origin, _, ha⟩ := hfrom name value hl
    exact hread.isAssignable ha
  refine ⟨?_, ?_⟩
  · intro name value hl
    obtain ⟨hfirst, horigin⟩ := hfrom name value hl
    exact ⟨hfirst, horigin, hvalue name value hl⟩
  · intro name
    exact Store.valueOf_eq_nil_iff fun value hl => (hvalue name value hl).1

/-- Sets two variables and copies one into the other. -/
def relay : Script :=
  .ofLines ["::start[main]".toList, "::set [a] = 1".toList, "::set [b] = 2".toList,
    "::set [b] = [a]".toList]

theorem relay_comes_from_script :
    relay.WasRead ∧
      (({ script := relay } : Session).run Sink.gather []).2.2.store.lookup ['b'] = some ['1'] ∧
      ∃ origin, Relation.ReflTransGen relay.Copies ['b'] origin ∧ relay.Assigns origin ['1'] := by
  have hread : relay.WasRead := .inr ⟨_, rfl⟩
  have hlookup :
      (({ script := relay } : Session).run Sink.gather []).2.2.store.lookup ['b'] = some ['1'] := by
    decide
  obtain ⟨hvalues, _⟩ := store_comes_from_script { script := relay } hread Sink.gather []
  exact ⟨hread, hlookup, (hvalues ['b'] ['1'] hlookup).2.1⟩

end LineScript
