import Betik.Proofs.Machine.Ends
import Betik.Proofs.Machine.Truncation
import Betik.Proofs.Machine.Variables

/-!
# Causes of errors

Each part of a statement either leads on, with no variable lost, no line refused and the step limit
kept, or fails for a cause in the program, the configuration or the sink. What leads to a failing
part takes nothing away from its cause, so the same holds of whole runs. Main statement: every error
of a run has such a cause, and no error is about characters, tokens or files.
-/

namespace Betik

/-! ## Causes -/

namespace Machine

/-- The device refuses a line of output, as the first one since `m`. -/
def LineRefused (m m' : Machine) (cause : String) : Prop :=
  m'.sink.refused = m.sink.refused + 1 ∧
    ∃ value, m.sink.device.onLine m'.sink.lines m.sink.refused m.sink.flushes
      (Action.outputLine value) = some cause

/-- The device refuses no line, but the flush after the last one. -/
def FlushRefused (m m' : Machine) (cause : String) : Prop :=
  m'.sink.refused = m.sink.refused ∧
    m.sink.device.onFlush m'.sink.lines m.sink.flushes = some cause

end Machine

/-- What the error of a run that started on `m` and left `m'` was caused by. A run has no errors
about characters, tokens or files. -/
def Program.CausedBy (p : Program) (config : Config) (m m' : Machine) : Error → Prop
  | .undefinedVariable x =>
    x ∈ p.reads ∧ m.symbols.get? x = none ∧ m'.symbols.get? x = none
  | .arithmetic fault => ∃ op ∈ fault.operators, op ∈ p.operators
  | .stepLimitExceeded limit => config.stepLimit = some limit ∧ m'.steps = limit.toNat + 1
  | .output cause => m.LineRefused m' cause ∨ m.FlushRefused m' cause
  | .unknownToken _ | .unexpectedToken _ _ | .file _ _ => False

theorem Program.Unevaluable.causedBy {p : Program} {config : Config} {m : Machine} {e : Error}
    (h : p.Unevaluable m.symbols (.fault e)) : p.CausedBy config m m e := by
  cases h with
  | name hreads hnone => exact ⟨hreads, hnone, hnone⟩
  | operator hop hcan => exact ⟨_, hcan, hop⟩

theorem Machine.Precedes.undefined {m m' : Machine} {x : String} (h : m.Precedes m')
    (hx : m'.symbols.get? x = none) : m.symbols.get? x = none := by
  rw [← Option.not_isSome_iff_eq_none] at hx ⊢
  exact fun hsome => hx (h.names x hsome)

/-- What holds between two moments of a run that has not failed in between. -/
structure Machine.Proceeds (config : Config) (m m' : Machine) : Prop where
  precedes : m.Precedes m'
  allows : config.Allows m'.steps
  sink : ∃ lines, m'.sink = { m.sink with lines }

namespace Machine.Proceeds

variable {config : Config} {m m' m'' : Machine}

theorem refl (h : config.Allows m.steps) : m.Proceeds config m :=
  ⟨.refl m, h, m.sink.lines, rfl⟩

theorem trans (h : m.Proceeds config m') (h' : m'.Proceeds config m'') :
    m.Proceeds config m'' where
  precedes := h.precedes.trans h'.precedes
  allows := h'.allows
  sink := by
    obtain ⟨lines, hlines⟩ := h.sink
    obtain ⟨lines', hlines'⟩ := h'.sink
    rw [hlines] at hlines'
    exact ⟨lines', hlines'⟩

/-- What leads to a failure takes nothing away from its cause. -/
theorem causedBy {p : Program} {e : Error} (h : m.Proceeds config m')
    (hcause : p.CausedBy config m' m'' e) : p.CausedBy config m m'' e := by
  cases e with
  | undefinedVariable x =>
      obtain ⟨hreads, hbefore, hafter⟩ := hcause
      exact ⟨hreads, h.precedes.undefined hbefore, hafter⟩
  | output cause =>
      obtain ⟨lines, hlines⟩ := h.sink
      unfold Program.CausedBy Machine.LineRefused Machine.FlushRefused at hcause ⊢
      rw [hlines] at hcause
      exact hcause
  | _ => exact hcause

end Machine.Proceeds

/-! ## Accountable actions -/

/-- An ending that led on from `m`, or failed for a cause, or was cut off without a fault. -/
inductive Ending.AccountedFor {α : Type} (p : Program) (config : Config) (m : Machine) :
    Ending α → Prop where
  | proceeded {a m'} : m.Proceeds config m' → AccountedFor p config m (finished a m')
  | failed {e m'} : p.CausedBy config m m' e → AccountedFor p config m (halted (.fault e) m')
  | cut {reason m'} : (∀ e, reason ≠ .fault e) → AccountedFor p config m (halted reason m')

theorem Ending.AccountedFor.after {α : Type} {p : Program} {config : Config} {m m₁ : Machine}
    {ending : Ending α} (h : m.Proceeds config m₁) (hending : ending.AccountedFor p config m₁) :
    ending.AccountedFor p config m := by
  cases hending with
  | proceeded hproceeds => exact .proceeded (h.trans hproceeds)
  | failed hcause => exact .failed (h.causedBy hcause)
  | cut hreason => exact .cut hreason

/-- An action whose endings can be accounted for, if the step limit was kept before it. -/
def Action.Accountable {α : Type} (p : Program) (config : Config) (x : Action α) : Prop :=
  ∀ m : Machine, config.Allows m.steps → (x m).AccountedFor p config m

namespace Action.Accountable

variable {α β : Type} {p : Program} {config : Config}

theorem nothing (a : α) : (pure a : Action α).Accountable p config :=
  fun _ hallows => .proceeded (.refl hallows)

theorem halt {reason : Halt} (hreason : ∀ e, reason ≠ .fault e) :
    (Action.halt reason : Action α).Accountable p config :=
  fun _ _ => .cut hreason

theorem bind {x : Action α} {f : α → Action β} (hx : x.Accountable p config)
    (hf : ∀ a, (f a).Accountable p config) : (x >>= f).Accountable p config := by
  intro m hallows
  have hfirst := hx m hallows
  rw [bind_apply]
  generalize x m = ending at hfirst ⊢
  cases hfirst with
  | proceeded hproceeds => exact .after hproceeds (hf _ _ hproceeds.allows)
  | failed hcause => exact .failed hcause
  | cut hreason => exact .cut hreason

theorem tick (p : Program) (config : Config) : (Action.tick config).Accountable p config := by
  intro m hbefore
  rcases config.allows_or_exceeds m.counted.steps with hallows | ⟨limit, hlimit, hexceeds⟩
  · rw [tick_of_allows hallows]
    exact .proceeded ⟨.counted m, hallows, m.sink.lines, rfl⟩
  · rw [tick_of_exceeds ⟨hlimit, hexceeds⟩]
    -- The step before was within the limit, so this one is the first beyond.
    have hle := hbefore limit hlimit
    have hsteps : m.counted.steps = m.steps + 1 := rfl
    exact .failed ⟨hlimit, by omega⟩

theorem value (config : Config) (id : ExprId) : (p.value id).Accountable p config := by
  intro m hallows
  unfold Program.value
  split
  · exact .proceeded (.refl hallows)
  next reason hvalue =>
    have hwhy := Program.evaluate_unevaluable hvalue
    cases reason with
    | fault e => exact .failed hwhy.causedBy
    | badReference => exact .cut (by simp)
    | outOfFuel => exact .cut (by simp)

theorem assign (config : Config) (name : String) (value : Int64) :
    (Action.assign name value).Accountable p config :=
  fun m hallows => .proceeded ⟨.assigned m name value, hallows, m.sink.lines, rfl⟩

theorem print (config : Config) (value : Int64) : (Action.print value).Accountable p config := by
  intro m hallows
  have hprecedes := precedes_print value m
  unfold Action.print Sink.write at hprecedes ⊢
  cases hanswer : m.sink.device.onLine m.sink.lines m.sink.refused m.sink.flushes
      (outputLine value) with
  | none =>
      rw [hanswer] at hprecedes
      exact .proceeded ⟨hprecedes, hallows, _, rfl⟩
  | some cause => exact .failed (.inl ⟨rfl, value, hanswer⟩)

end Action.Accountable

/-! ## Runs -/

namespace Program

open Betik.Action

variable {p : Program} {config : Config} {m m' : Machine} {e : Error}

theorem actions_accountable (p : Program) (config : Config) :
    Interpretation.RelatedOn p (fun _ x _ => Accountable p config x) (p.actions config)
      (p.actions config) where
  nothing := .nothing ()
  bind := .bind
  tick := .tick p config
  holds condition := (Accountable.value config condition).bind fun _ => .nothing _
  assign _ := (Accountable.tick p config).bind fun _ =>
    (Accountable.value config _).bind fun result => .assign config _ result
  print value := (Accountable.tick p config).bind fun _ =>
    (Accountable.value config value).bind fun result => .print config result
  stop := .halt

theorem CausedBy.flushed (h : p.CausedBy config m m' e) :
    p.CausedBy config m { m' with sink := m'.sink.flush.1 } e := by
  cases e <;> exact h

/-- If statements have led on, only the flush can still fail. -/
theorem causedBy_of_flush {m₁ : Machine} (h : m.Proceeds config m₁)
    (hflush : (Ending.finished () m₁).flushed = .halted (.fault e) m') :
    p.CausedBy config m m' e := by
  obtain ⟨lines, hlines⟩ := h.sink
  unfold Ending.flushed Sink.flush at hflush
  simp only [hlines] at hflush
  cases hanswer : m.sink.device.onFlush lines m.sink.flushes with
  | none =>
      rw [hanswer] at hflush
      cases hflush
  | some cause =>
      rw [hanswer] at hflush
      cases hflush
      exact .inr ⟨rfl, hanswer⟩

/-- An error of a run has its cause in the program, the configuration or the sink. A name was
undefined that the program reads, and it is undefined in the end as it was at the start; a division
by zero or an overflow comes from an operator of the program that can have it; a step limit is the
one configured, and the run is one step beyond it; an output error is the answer of the device to a
line or to the flush. There are no other errors. -/
theorem ends_failed_causedBy (h : p.Ends config m (.failed e) m') : p.CausedBy config m m' e := by
  obtain ⟨fuel, hrun⟩ := h
  -- Steps are counted anew, so no limit is exceeded at the start.
  let start : Machine := { m with steps := 0 }
  have hstart : config.Allows start.steps := fun _ _ => Nat.zero_le _
  have hbody := (p.actions_accountable config).body config.forLoop fuel start hstart
  suffices hcaused : p.CausedBy config start m' e from hcaused
  rw [run_eq_flushed] at hrun
  generalize (p.actions config).body p config.forLoop fuel start = ending at hbody hrun
  cases hbody with
  | proceeded hproceeds => exact causedBy_of_flush hproceeds hrun
  | failed hcaused =>
      cases hrun
      exact hcaused.flushed
  | cut hreason =>
      cases hrun
      exact absurd rfl (hreason e)

/-- `iken ( 1 ) { yazdır ( x ) ; }` fails for want of `x`, and with it at a step limit or at a
device that is full. -/
theorem ends_failed_causedBy_endless :
    let p := ofTrees [.whileDo (.number 1) [.print (.name "x")]]
    let undefined : Machine := { sink := { device := .accepting } }
    let defined (sink : Sink) : Machine := { symbols := SymbolTable.empty.assign "x" 7, sink }
    let full : Sink := { device := .limited (some 1) false }
    (∃ m', p.Ends {} undefined (.failed (.undefinedVariable "x")) m' ∧ "x" ∈ p.reads ∧
      m'.symbols.get? "x" = none) ∧
    (∃ m', p.Ends { stepLimit := some 5 } (defined undefined.sink)
      (.failed (.stepLimitExceeded 5)) m' ∧ m'.steps = 6) ∧
    ∃ m', p.Ends {} (defined full) (.failed (.output "sink full")) m' ∧
      ((defined full).LineRefused m' "sink full" ∨
        (defined full).FlushRefused m' "sink full") := by
  intro p undefined defined full
  have hname : p.Ends {} undefined (.failed (.undefinedVariable "x")) _ := ⟨8, rfl⟩
  have hlimit : p.Ends { stepLimit := some 5 } (defined undefined.sink)
      (.failed (.stepLimitExceeded 5)) _ := ⟨8, rfl⟩
  have hline : p.Ends {} (defined full) (.failed (.output "sink full")) _ := ⟨8, rfl⟩
  obtain ⟨hreads, -, hafter⟩ := ends_failed_causedBy hname
  obtain ⟨-, hsteps⟩ := ends_failed_causedBy hlimit
  exact ⟨⟨_, hname, hreads, hafter⟩, ⟨_, hlimit, hsteps⟩, _, hline, ends_failed_causedBy hline⟩

end Program

end Betik
