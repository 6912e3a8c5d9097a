import Betik.Proofs.Machine.Interpretation

/-!
# Lower step limits

A step is counted before anything is done for it, so a lower limit only cuts a run short: a run that
stays within it is the same run, and any other stops at its first step beyond, with a beginning of
the output and with no variable that the longer run does not have.
-/

namespace Betik

/-- What can be said of an earlier and a later moment of a run: no step was taken back, and no line
and no variable was lost. -/
structure Machine.Precedes (m m' : Machine) : Prop where
  steps : m.steps ≤ m'.steps
  lines : m.sink.lines.toList <+: m'.sink.lines.toList
  names : ∀ x, (m.symbols.get? x).isSome → (m'.symbols.get? x).isSome

namespace Machine.Precedes

variable {m m' m'' : Machine}

theorem refl (m : Machine) : m.Precedes m :=
  ⟨Nat.le_refl _, List.prefix_refl _, fun _ => id⟩

theorem trans (h : m.Precedes m') (h' : m'.Precedes m'') : m.Precedes m'' where
  steps := Nat.le_trans h.steps h'.steps
  lines := h.lines.trans h'.lines
  names x hx := h'.names x (h.names x hx)

theorem counted (m : Machine) : m.Precedes m.counted :=
  ⟨Nat.le_succ _, List.prefix_refl _, fun _ => id⟩

theorem assigned (m : Machine) (name : String) (value : Int64) :
    m.Precedes (m.assigned name value) where
  steps := Nat.le_refl _
  lines := List.prefix_refl _
  names x hx := by
    rw [Machine.assigned, SymbolTable.get?_assign]
    split
    · rfl
    · exact hx

end Machine.Precedes

namespace Action

variable {α : Type} {limit : UInt64}

theorem precedes_print (value : Int64) (m : Machine) :
    m.Precedes (print value m).machine := by
  refine ⟨Nat.le_of_eq (steps_print value m).symm, ?_, ?_⟩
  · rw [print, Sink.write]
    cases m.sink.device.onLine m.sink.lines m.sink.refused m.sink.flushes (outputLine value) with
    | none => simp [Ending.machine]
    | some cause => exact List.prefix_refl _
  · intro x hx
    rw [print]
    split <;> exact hx

/-! ## Actions under two limits -/

/-- `x` does what `y` does up to the step after `limit`, and stops there; `y` loses nothing. -/
structure Truncates (limit : UInt64) (x y : Action α) : Prop where
  advances : ∀ m : Machine, m.Precedes (y m).machine
  within : ∀ m, (y m).machine.steps ≤ limit.toNat → x m = y m
  beyond : ∀ m : Machine, m.steps ≤ limit.toNat → limit.toNat < (y m).machine.steps →
    ∃ m', x m = .halted (.fault (.stepLimitExceeded limit)) m' ∧ m'.steps = limit.toNat + 1 ∧
      m'.Precedes (y m).machine

namespace Truncates

variable {β : Type} {x y : Action α}

/-- An action that takes no step is the same under all limits. -/
theorem of_steps_eq (hadvances : ∀ m : Machine, m.Precedes (x m).machine)
    (hsteps : ∀ m, (x m).machine.steps = m.steps) : x.Truncates limit x where
  advances := hadvances
  within _ _ := rfl
  beyond m hle hlt := by
    rw [hsteps] at hlt
    omega

theorem of_machine_eq (h : ∀ m, (x m).machine = m) : x.Truncates limit x := by
  refine of_steps_eq (fun m => ?_) fun m => by rw [h]
  rw [h]
  exact .refl m

theorem bind {f g : α → Action β} (hx : x.Truncates limit y)
    (hf : ∀ a, (f a).Truncates limit (g a)) : (x >>= f).Truncates limit (y >>= g) where
  advances m := by
    have hadvances := hx.advances m
    rw [bind_apply]
    cases hy : y m with
    | finished a m₁ =>
        rw [hy] at hadvances
        exact hadvances.trans ((hf a).advances m₁)
    | halted reason m₁ =>
        rw [hy] at hadvances
        exact hadvances
  within m hle := by
    have hwithin := hx.within m
    rw [bind_apply] at hle
    rw [bind_apply, bind_apply]
    cases hy : y m with
    | finished a m₁ =>
        rw [hy] at hwithin hle
        -- The second action takes no step back, so the first has stayed within the limit.
        rw [hwithin (Nat.le_trans ((hf a).advances m₁).steps hle)]
        exact (hf a).within m₁ hle
    | halted reason m₁ =>
        rw [hy] at hwithin hle
        rw [hwithin hle]
  beyond m hm hlt := by
    have hwithin := hx.within m
    have hbeyond := hx.beyond m hm
    rw [bind_apply] at hlt
    rw [bind_apply, bind_apply]
    cases hy : y m with
    | finished a m₁ =>
        rw [hy] at hwithin hbeyond hlt
        by_cases hle : m₁.steps ≤ limit.toNat
        · rw [hwithin hle]
          exact (hf a).beyond m₁ hle hlt
        · obtain ⟨m', hx, hsteps, hprecedes⟩ := hbeyond (Nat.lt_of_not_le hle)
          rw [hx]
          exact ⟨m', rfl, hsteps, hprecedes.trans ((hf a).advances m₁)⟩
    | halted reason m₁ =>
        rw [hy] at hbeyond hlt
        obtain ⟨m', hx, hsteps, hprecedes⟩ := hbeyond hlt
        rw [hx]
        exact ⟨m', rfl, hsteps, hprecedes⟩

theorem tick {config config' : Config} (hlimit : config.stepLimit = some limit)
    (hle : ∀ limit', config'.stepLimit = some limit' → limit ≤ limit') :
    (Action.tick config).Truncates limit (Action.tick config') where
  advances m := by
    rw [machine_tick]
    exact .counted m
  within m hsteps := by
    rw [machine_tick] at hsteps
    have hallows : config.Allows m.counted.steps := by
      rintro _ hsome
      rwa [Option.some.inj (hsome.symm.trans hlimit)]
    have hallows' : config'.Allows m.counted.steps := fun limit' hsome =>
      Nat.le_trans hsteps (UInt64.le_iff_toNat_le.1 (hle limit' hsome))
    rw [tick_of_allows hallows, tick_of_allows hallows']
  beyond m hm hlt := by
    rw [machine_tick] at hlt ⊢
    have hlast : m.counted.steps = m.steps + 1 := rfl
    exact ⟨m.counted, tick_of_exceeds ⟨hlimit, hlt⟩, by omega, .refl _⟩

end Truncates

end Action

namespace Program

open Betik.Action

variable {p : Program} {config config' : Config} {limit : UInt64}

theorem actions_truncate (hlimit : config.stepLimit = some limit)
    (hle : ∀ limit', config'.stepLimit = some limit' → limit ≤ limit') :
    Interpretation.Related (fun _ => Truncates limit) (p.actions config) (p.actions config') where
  nothing := .of_machine_eq fun _ => rfl
  bind := .bind
  tick := .tick hlimit hle
  holds id := .of_machine_eq (machine_holds id)
  assign name value := (Truncates.tick hlimit hle).bind fun _ =>
    (Truncates.of_machine_eq (machine_value value)).bind fun result =>
      .of_steps_eq (fun m => .assigned m name result) fun _ => rfl
  print value := (Truncates.tick hlimit hle).bind fun _ =>
    (Truncates.of_machine_eq (machine_value value)).bind fun result =>
      .of_steps_eq (precedes_print result) (steps_print result)
  stop _ := .of_machine_eq fun _ => rfl

theorem body_truncates (p : Program) (config config' : Config)
    (hlimit : config.stepLimit = some limit)
    (hle : ∀ limit', config'.stepLimit = some limit' → limit ≤ limit') (mode : ForLoop)
    (fuel : Nat) :
    ((p.actions config).body p mode fuel).Truncates limit ((p.actions config').body p mode fuel) :=
  (actions_truncate hlimit hle).body p mode fuel

end Program

/-! ## Whole runs -/

namespace Program

open Betik.Action

/-- A run under a step limit is compared with one under a higher limit, or under none, that ends
after some number of steps. If the lower limit allows that many, the runs are the same. If not, the
run under it fails at the first step beyond, its output is a beginning of the other's, line by line,
and each of its variables is one of the other's. -/
theorem run_truncated (p : Program) (mode : ForLoop) {limit : UInt64} {limit' : Option UInt64}
    (hle : ∀ higher, limit' = some higher → limit ≤ higher) {fuel : Nat} {m m' : Machine}
    {o : Outcome} (hrun : p.run { forLoop := mode, stepLimit := limit' } fuel m = o.ending m') :
    (m'.steps ≤ limit.toNat →
      p.run { forLoop := mode, stepLimit := some limit } fuel m = o.ending m') ∧
    (limit.toNat < m'.steps → ∃ m₁,
      p.run { forLoop := mode, stepLimit := some limit } fuel m =
        Outcome.ending (.failed (.stepLimitExceeded limit)) m₁ ∧
      m₁.steps = limit.toNat + 1 ∧
      (∃ printed more, m₁.sink.lines.toList = m.sink.lines.toList ++ printed ∧
        m'.sink.lines.toList = m.sink.lines.toList ++ printed ++ more) ∧
      ∀ x, (m₁.symbols.get? x).isSome → (m'.symbols.get? x).isSome) := by
  let config : Config := { forLoop := mode, stepLimit := some limit }
  let config' : Config := { forLoop := mode, stepLimit := limit' }
  have htruncates := p.body_truncates config config' rfl hle mode fuel
  rw [run_eq_flushed] at hrun ⊢
  -- Flushing leaves the steps, the lines and the variables of the machine as they are.
  have hafter := congrArg Ending.machine hrun
  rw [Ending.machine_flushed, Outcome.machine_ending] at hafter
  subst hafter
  constructor
  · intro hsteps
    rw [htruncates.within _ hsteps]
    exact hrun
  · intro hsteps
    obtain ⟨m₁, hcut, hlast, hprecedes⟩ := htruncates.beyond _ (Nat.zero_le _) hsteps
    have hbegins := (p.body_truncates config config rfl (by simp [config]) mode fuel).advances
      { m with steps := 0 }
    rw [hcut] at hbegins
    obtain ⟨printed, hprinted⟩ := hbegins.lines
    obtain ⟨more, hmore⟩ := hprecedes.lines
    refine ⟨{ m₁ with sink := m₁.sink.flush.1 }, ?_, hlast, ⟨printed, more, hprinted.symm, ?_⟩,
      hprecedes.names⟩
    · rw [hcut]
      rfl
    · rw [hprinted]
      exact hmore.symm

/-- `x = 2 ; iken ( x ) { x = x - 1 ; yazdır ( x ) ; }` ends after eight steps. A limit of eight is
no limit to it; under a limit of five it stops with the first of its two lines. -/
theorem run_truncated_countdown :
    let p := ofTrees [.assign ⟨"x", .number 2⟩, .whileDo (.name "x")
      [.assign ⟨"x", .binary .minus (.name "x") (.number 1)⟩, .print (.name "x")]]
    let m : Machine := { sink := { device := .accepting } }
    let under (limit : UInt64) : Config := { stepLimit := some limit }
    ∃ m', p.run (under 100) 16 m = Outcome.done.ending m' ∧ m'.steps = 8 ∧
      p.run (under 8) 16 m = Outcome.done.ending m' ∧
      ∃ m₁, p.run (under 5) 16 m = Outcome.ending (.failed (.stepLimitExceeded 5)) m₁ ∧
        m₁.steps = 6 ∧ m₁.sink.lines.toList <+: m'.sink.lines.toList := by
  intro p m under
  have hobserved : (p.run (under 100) 16 m).isFinished ∧
      (p.run (under 100) 16 m).machine.steps = 8 := by
    decide +kernel
  have hrun := Ending.eq_of_isFinished hobserved.1
  have hlower : ∀ limit : UInt64, limit ≤ 100 →
      ∀ higher, some 100 = some higher → limit ≤ higher := by
    rintro limit hle _ ⟨⟩
    exact hle
  refine ⟨_, hrun, hobserved.2, ?_, ?_⟩
  · have hsame := (run_truncated p .conventional (hlower 8 (by decide)) hrun).1
    exact hsame (by rw [hobserved.2]; decide)
  · have hshorter := (run_truncated p .conventional (hlower 5 (by decide)) hrun).2
    obtain ⟨m₁, hcut, hsteps, ⟨printed, more, hfirst, hall⟩, -⟩ :=
      hshorter (by rw [hobserved.2]; decide)
    exact ⟨m₁, hcut, hsteps, more, by rw [hfirst, hall]⟩

end Program

end Betik
