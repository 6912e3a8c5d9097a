import Betik.Proofs.Machine.Interpretation

/-!
# Recorded runs

A machine does not show how often its variables were assigned or which lines its device refused. A
recorded run lists these effects, one entry for each assignment and each print, in their order.
Without the list it is the run itself, and the effects on the list, performed one after the other
and with nothing between them, lead to the same variables and the same sink.
-/

namespace Betik

/-- The same variables and the same sink, whatever the steps. -/
structure Machine.Agrees (m m' : Machine) : Prop where
  symbols : m.symbols = m'.symbols
  sink : m.sink = m'.sink

namespace Machine.Agrees

theorem refl (m : Machine) : m.Agrees m :=
  ⟨rfl, rfl⟩

theorem trans {m m' m'' : Machine} (h : m.Agrees m') (h' : m'.Agrees m'') : m.Agrees m'' :=
  ⟨h.symbols.trans h'.symbols, h.sink.trans h'.sink⟩

end Machine.Agrees

/-- What a run does to the variables and to the output. -/
inductive Effect where
  | assigned (name : String) (value : Int64)
  | printed (value : Int64)
deriving DecidableEq

namespace Effect

/-- The action that has an effect. -/
def perform : Effect → Action Unit
  | assigned name value => Action.assign name value
  | printed value => Action.print value

/-- The machine after some effects, whether or not the device has refused a line. -/
def performAll : List Effect → Machine → Machine
  | [], m => m
  | effect :: rest, m => performAll rest (effect.perform m).machine

theorem symbols_print (value : Int64) (m : Machine) :
    (Action.print value m).machine.symbols = m.symbols := by
  rw [Action.print]
  split <;> rfl

theorem steps_perform (effect : Effect) (m : Machine) :
    (effect.perform m).machine.steps = m.steps := by
  cases effect with
  | assigned name value => rfl
  | printed value => exact Action.steps_print value m

/-- No effect depends on the count of steps. -/
theorem agrees_perform (effect : Effect) {m m' : Machine} (h : m.Agrees m') :
    (effect.perform m).machine.Agrees (effect.perform m').machine := by
  obtain ⟨hsymbols, hsink⟩ := h
  cases effect with
  | assigned name value => exact ⟨congrArg (·.assign name value) hsymbols, hsink⟩
  | printed value =>
      simp only [perform, Action.print, ← hsink]
      split <;> exact ⟨hsymbols, rfl⟩

theorem agrees_performAll (effects : List Effect) {m m' : Machine} (h : m.Agrees m') :
    (performAll effects m).Agrees (performAll effects m') := by
  induction effects generalizing m m' with
  | nil => exact h
  | cons effect rest ih => exact ih (agrees_perform effect h)

theorem performAll_append (first second : List Effect) (m : Machine) :
    performAll (first ++ second) m = performAll second (performAll first m) := by
  induction first generalizing m with
  | nil => rfl
  | cons effect rest ih => exact ih _

end Effect

/-- How an action ended, and the effects it had, oldest first. -/
structure Recorded (α : Type) where
  ending : Ending α
  effects : List Effect

/-- An action that lists its effects. -/
abbrev Recording (α : Type) := Machine → Recorded α

namespace Recording

variable {α β : Type}

instance : Monad Recording where
  pure a := fun m => ⟨.finished a m, []⟩
  bind x f := fun m =>
    match (x m).ending with
    | .finished a m' => ⟨(f a m').ending, (x m).effects ++ (f a m').effects⟩
    | .halted reason m' => ⟨.halted reason m', (x m).effects⟩

theorem bind_of_finished {x : Recording α} {m m' : Machine} {a : α}
    (h : (x m).ending = .finished a m') (f : α → Recording β) :
    (x >>= f) m = ⟨(f a m').ending, (x m).effects ++ (f a m').effects⟩ := by
  change (match (x m).ending with
    | .finished a m' => _
    | .halted reason m' => _) = _
  rw [h]

theorem bind_of_halted {x : Recording α} {m m' : Machine} {reason : Halt}
    (h : (x m).ending = .halted reason m') (f : α → Recording β) :
    (x >>= f) m = ⟨.halted reason m', (x m).effects⟩ := by
  change (match (x m).ending with
    | .finished a m' => _
    | .halted reason m' => _) = _
  rw [h]

/-- An action without effects. -/
def silent (x : Action α) : Recording α :=
  fun m => ⟨x m, []⟩

/-- An effect, with its entry on the list. -/
def performed (effect : Effect) : Recording Unit :=
  fun m => ⟨effect.perform m, [effect]⟩

/-- A step, then the effect that the value of an expression decides on. -/
def elementary (p : Program) (config : Config) (effect : Int64 → Effect) (value : ExprId) :
    Recording Unit := do
  silent (Action.tick config)
  let result ← silent (p.value value)
  performed (effect result)

end Recording

namespace Program

open Recording

/-- The parts of statements as the machine carries them out, with their effects listed. -/
def recordings (p : Program) (config : Config) : Interpretation Recording where
  tick := silent (Action.tick config)
  holds condition := silent (p.holds condition)
  assign name := elementary p config (Effect.assigned name)
  print := elementary p config Effect.printed
  stop reason := silent (Action.halt reason)

/-- A run of a program with its effects. -/
def recordedRun (p : Program) (config : Config) (fuel : Nat) : Recording Unit := fun m =>
  let recorded := (p.recordings config).body p config.forLoop fuel { m with steps := 0 }
  ⟨recorded.ending.flushed, recorded.effects⟩

end Program

/-! ## Faithfulness -/

namespace Recording

variable {α β : Type}

/-- The recording ends as the action does, and the listed effects account for what it leaves. -/
structure Faithful (x : Action α) (y : Recording α) : Prop where
  ending : ∀ m, (y m).ending = x m
  effects : ∀ m : Machine, (x m).machine.Agrees (Effect.performAll (y m).effects m)

namespace Faithful

theorem bind {x : Action α} {y : Recording α} {f : α → Action β} {g : α → Recording β}
    (hx : Faithful x y) (hf : ∀ a, Faithful (f a) (g a)) : Faithful (x >>= f) (y >>= g) where
  ending m := by
    have hending := hx.ending m
    rw [Action.bind_apply]
    cases hxm : x m with
    | finished a m' =>
        rw [bind_of_finished (hending.trans hxm)]
        exact (hf a).ending m'
    | halted reason m' => rw [bind_of_halted (hending.trans hxm)]
  effects m := by
    have hending := hx.ending m
    have hfirst := hx.effects m
    rw [Action.bind_apply]
    cases hxm : x m with
    | finished a m' =>
        rw [hxm] at hending hfirst
        rw [bind_of_finished hending, Effect.performAll_append]
        -- The effects of the second action are performed where those of the first have led.
        exact ((hf a).effects m').trans (Effect.agrees_performAll _ hfirst)
    | halted reason m' =>
        rw [hxm] at hending hfirst
        rw [bind_of_halted hending]
        exact hfirst

theorem silent {x : Action α} (h : ∀ m, (x m).machine.Agrees m) :
    Faithful x (silent x) where
  ending _ := rfl
  effects := h

theorem of_machine_eq {x : Action α} (h : ∀ m, (x m).machine = m) :
    Faithful x (Recording.silent x) :=
  silent fun m => by rw [h]; exact .refl m

theorem tick (config : Config) : Faithful (Action.tick config) (.silent (Action.tick config)) :=
  silent fun m => by rw [Action.machine_tick]; exact ⟨rfl, rfl⟩

theorem performed (effect : Effect) : Faithful effect.perform (performed effect) where
  ending _ := rfl
  effects _ := .refl _

theorem elementary (p : Program) (config : Config) (effect : Int64 → Effect) (value : ExprId) :
    Faithful (do Action.tick config; (effect (← p.value value)).perform)
      (elementary p config effect value) :=
  (tick config).bind fun _ => (of_machine_eq (Program.machine_value value)).bind fun result =>
    performed (effect result)

end Faithful

end Recording

namespace Program

open Recording

theorem recordings_faithful (p : Program) (config : Config) :
    Interpretation.Related (fun _ => Faithful) (p.actions config) (p.recordings config) where
  nothing := .of_machine_eq fun _ => rfl
  bind := .bind
  tick := .tick config
  holds condition := .of_machine_eq (machine_holds condition)
  assign name := .elementary p config (Effect.assigned name)
  print := .elementary p config Effect.printed
  stop _ := .of_machine_eq fun _ => rfl

/-- Recording changes nothing about a run. -/
theorem ending_recordedRun (p : Program) (config : Config) (fuel : Nat) (m : Machine) :
    (p.recordedRun config fuel m).ending = p.run config fuel m := by
  have hfaithful := (p.recordings_faithful config).body p config.forLoop fuel
  rw [run_eq_flushed, recordedRun, hfaithful.ending]

/-- The effects of a run account for the variables and the lines that it leaves. -/
theorem effects_recordedRun (p : Program) (config : Config) (fuel : Nat) (m : Machine) :
    let after := Effect.performAll (p.recordedRun config fuel m).effects m
    (p.run config fuel m).machine.symbols = after.symbols ∧
      (p.run config fuel m).machine.sink.lines = after.sink.lines := by
  have hfaithful := (p.recordings_faithful config).body p config.forLoop fuel
  have hstart : Machine.Agrees { m with steps := 0 } m := ⟨rfl, rfl⟩
  have heffects := (hfaithful.effects { m with steps := 0 }).trans
    (Effect.agrees_performAll _ hstart)
  have hlines := congrArg Sink.lines heffects.sink
  rw [run_eq_flushed, Ending.machine_flushed]
  exact ⟨heffects.symbols, hlines⟩

end Program

end Betik
