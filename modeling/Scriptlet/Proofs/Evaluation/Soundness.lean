import Scriptlet.Proofs.Evaluation.Closing
import Scriptlet.Proofs.Evaluation.Keeping

/-!
# Sound evaluation

An evaluation that begins on a sound machine goes on on sound machines: its references lead into
its store, and every closing so far is exact (`Closing.Exact`), which means that what it keeps is
what is needed. Soundness is a lawful discipline, so this holds of the whole evaluator.
-/

namespace Scriptlet

/-- A machine whose store is sound, whose scopes are in it and whose closings were exact. -/
structure Machine.Sound (m : Machine) : Prop where
  store : m.store.Sound
  global : m.store.HasScope m.global
  current : m.store.HasScope m.current
  closings : ∀ c, m.closings c → c.Exact

/-- A setting without functions of a host, in which only what is in the store is in use. -/
structure Setting.Sound (setting : Setting) (s : Store) : Prop where
  hosts : setting.hosts = #[]
  held : ∀ v ∈ setting.held, s.Usable v

variable {setting : Setting} {m : Machine} {s t : Store} {r : ScopeRef}

/-- A sound machine with another store that the old one has become. -/
theorem Machine.Sound.put (sound : m.Sound) (becomes : m.store.Becomes t) :
    Machine.Sound { m with store := t } where
  store := becomes.sound
  global := sound.global.grows becomes.toGrows
  current := sound.current.grows becomes.toGrows
  closings := sound.closings

theorem Machine.Sound.enter (sound : m.Sound) (here : m.store.HasScope r) :
    Machine.Sound { m with current := r } :=
  ⟨sound.store, sound.global, here, sound.closings⟩

/-- A scope that evaluation leaves. -/
theorem Machine.Sound.close (sound : m.Sound) {held : List Value}
    (usable : ∀ v ∈ held, m.store.Usable v) (here : m.store.HasScope r) :
    (m.close held r).Sound ∧ m.store.Grows (m.close held r).store := by
  unfold Machine.close
  by_cases isClass : (m.store.scope r).isClass = true
  · rw [if_pos isClass]
    exact ⟨sound, .refl _⟩
  · rw [if_neg isClass]
    have becomes := sound.store.leave (.object m.global :: .object m.current :: held) r
    refine ⟨⟨becomes.sound, ?_, ?_, ?_⟩, becomes.toGrows⟩
    · exact sound.global.grows becomes.toGrows
    · exact sound.current.grows becomes.toGrows
    · rintro c (rfl | before)
      · refine Closing.exact _ sound.store (fun v member => ?_) here (by simpa using isClass)
        rcases List.mem_cons.1 member with rfl | member
        · exact .inr ⟨_, rfl, sound.global⟩
        · rcases List.mem_cons.1 member with rfl | member
          · exact .inr ⟨_, rfl, sound.current⟩
          · exact usable v member
      · exact sound.closings c before

theorem Setting.Sound.grows (grows : s.Grows t) (sound : setting.Sound s) : setting.Sound t :=
  ⟨sound.hosts, fun v member => (sound.held v member).grows grows⟩

theorem Setting.Sound.hold (sound : setting.Sound s) {values : List Value}
    (usable : ∀ v ∈ values, s.Usable v) : (setting.hold values).Sound s := by
  refine ⟨sound.hosts, fun v member => ?_⟩
  rcases List.mem_append.1 member with new | old
  · exact usable v (List.mem_of_mem_filter new)
  · exact sound.held v old

/-- What holds of a scope of a store that has a name and is a class scope or not. -/
structure Store.HasNamed (s : Store) (name : String) (isClass : Bool) (r : ScopeRef) : Prop where
  here : s.HasScope r
  named : (s.scope r).name = name
  ofClass : (s.scope r).isClass = isClass

theorem Store.HasNamed.grows {name : String} {c : Bool} (grows : s.Grows t)
    (opened : s.HasNamed name c r) : t.HasNamed name c r := by
  obtain ⟨sameName, sameClass⟩ := grows.scope r opened.here
  exact ⟨opened.here.grows grows, sameName.trans opened.named, sameClass.trans opened.ofClass⟩

/-- A scope that evaluation leaves for another one. -/
theorem Machine.Sound.return (sound : m.Sound) {o : ScopeRef} (here : m.store.HasScope o)
    (suits : setting.Sound m.store) (left : m.store.HasScope r) {held : List Value}
    (usable : ∀ v ∈ held, m.store.Usable v) :
    ({ m with current := o }.close (held ++ setting.held) r).Sound ∧
      m.store.Grows ({ m with current := o }.close (held ++ setting.held) r).store := by
  refine (sound.enter here).close (fun v member => ?_) left
  rcases List.mem_append.1 member with result | outer
  · exact usable v result
  · exact suits.held v outer

/-- The discipline of sound machines. -/
def soundness : Discipline where
  toValidity := Store.soundness
  Extends := Store.Grows
  Known := Store.HasScope
  Current := Store.HasScope
  Opened := Store.HasNamed
  Writable s r _ := s.HasScope r
  Running := Machine.Sound
  Suits := Setting.Sound
  line _ := True
  imports := True

/-- Any statement will do. -/
theorem soundness_admits (st : Stmt) : st.EachLine soundness.line soundness.imports :=
  Stmt.eachLine_of_all (fun _ => trivial) trivial st

theorem soundness_lawful : soundness.Lawful where
  toLawful := Store.soundness_lawful
  extends_of_grows grows := grows
  extends_trans := Store.Grows.trans
  valid_extends grows valid := Store.Valid.grows grows valid
  known_extends grows here := here.grows grows
  current_extends _ grows here := here.grows grows
  opened_extends _ grows opened := opened.grows grows
  writable_extends grows here := here.grows grows
  suits_extends grows sound := sound.grows grows
  known_of_current here := here
  parent_of_current here := here
  known_of_writable here := here
  known_of_valid valid := valid.1
  current_of_opened opened := opened.here
  writable_of_current here _ := here
  writable_of_found sound here found := sound.findVariableScope? here found
  parent_callParent sound here receivers _ :=
    sound.callParent here (sound.function _) receivers
  setVariable sound _ valid := (sound.setVariable _ _ valid).growing
  child {s r} sound here name c _ := by
    have becomes := sound.child here name c
    have scope := s.scope_child r name c
    exact ⟨becomes.growing, s.hasScope_newScope _, by rw [scope]; rfl, by rw [scope]; rfl⟩
  instantiate {s f template} sound body name := by
    have here := ((sound.function f).template template body).1
    exact ⟨(sound.instantiate here name).growing, s.valid_instantiate name template⟩
  defineFunction {s r statements} sound here _ name kind parameters := by
    refine (sound.defineFunction r ⟨fun q same => ?_, fun q never => ?_⟩).growing
    · cases same
      exact here
    · cases never
  inherit sound _ base := (sound.inherit _ base).growing
  defineClass {s r name template} sound _ opened := by
    rw [← opened.named]
    exact (sound.defineClass r opened.here opened.ofClass).growing
  body _ _ st _ := soundness_admits st
  imported _ st := soundness_admits st
  sound running := running.store
  current running := running.current
  put running becomes := running.put (.of_growing becomes)
  print running _ := ⟨running.store, running.global, running.current, running.closings⟩
  enter running opened := running.enter opened.here
  hold sound usable := sound.hold usable
  leave {s setting n o name r held} _ here more _ left suits opened usable := by
    obtain ⟨sound, grows⟩ := left.return (here.grows more) suits opened.here usable
    exact ⟨sound, more.trans grows, fun v valid => valid.grows grows⟩
  leaveTemplate here left suits opened usable := left.return here suits opened.here usable
  hosts {setting s i code call} suits _ registered _ _ := by
    simp [suits.hosts] at registered

end Scriptlet
