import Betik.Proofs.Machine.Ends
import Betik.Proofs.Machine.Truncation
import Betik.Proofs.Parsing.TopLevel
import Betik.Proofs.Tree.RoundTrip

/-!
# Programs one after the other

Without a step limit, a run does not depend on the steps that were counted before it, nor on the
flushes unless the device does. So two programs that are run one after the other do what one program
with the statements of both does, but for the flush in between, and the steps of the one are those
of the two together. Main statement: the same of two texts and of the text that joins them at a line
break. A device that makes room when it is flushed tells the two apart.
-/

namespace Betik

/-! ## Counts -/

namespace Machine

/-- The machine with more steps and flushes counted before. -/
def shifted (m : Machine) (steps flushes : Nat) : Machine :=
  { m with
    steps := m.steps + steps
    sink := { m.sink with flushes := m.sink.flushes + flushes } }

/-- The machine with its steps counted anew. -/
def restarted (m : Machine) : Machine :=
  { m with steps := 0 }

theorem shifted_restarted (m : Machine) : m.restarted.shifted m.steps 0 = m := by
  simp [shifted, restarted]

theorem restarted_shifted (m : Machine) (flushes : Nat) :
    (m.shifted 0 flushes).restarted = m.restarted.shifted 0 flushes :=
  rfl

end Machine

namespace Ending

variable {α : Type}

/-- The same ending with more steps and flushes counted before. -/
def shifted : Ending α → Nat → Nat → Ending α
  | finished value m, steps, flushes => finished value (m.shifted steps flushes)
  | halted reason m, steps, flushes => halted reason (m.shifted steps flushes)

theorem shifted_ending (o : Outcome) (m : Machine) (steps flushes : Nat) :
    (o.ending m).shifted steps flushes = o.ending (m.shifted steps flushes) := by
  cases o <;> rfl

theorem eq_ending_of_shifted {ending : Ending Unit} {steps flushes : Nat} {o : Outcome}
    {m : Machine} (h : ending.shifted steps flushes = o.ending m) :
    ∃ m', ending = o.ending m' ∧ m = m'.shifted steps flushes := by
  cases ending <;> cases o <;> cases h <;> exact ⟨_, rfl, rfl⟩

end Ending

/-- A device that refuses no flush. -/
def Device.AlwaysFlushes (d : Device) : Prop :=
  ∀ lines flushes, d.onFlush lines flushes = none

/-- A device that answers a line alike however often it was flushed before. -/
def Device.IgnoresFlushes (d : Device) : Prop :=
  ∀ accepted refused flushes line,
    d.onLine accepted refused flushes line = d.onLine accepted refused 0 line

/-- So many more flushes before would change no answer to a line. -/
def Sink.Overlooks (s : Sink) (flushes : Nat) : Prop :=
  ∀ accepted refused line, s.device.onLine accepted refused (s.flushes + flushes) line =
    s.device.onLine accepted refused s.flushes line

namespace Sink

theorem overlooks_zero (s : Sink) : s.Overlooks 0 :=
  fun _ _ _ => rfl

theorem overlooks_of_ignoresFlushes {s : Sink} (h : s.device.IgnoresFlushes) (flushes : Nat) :
    s.Overlooks flushes := by
  intro accepted refused line
  rw [h, h accepted refused s.flushes]

end Sink

/-- The same sink at an earlier and a later moment with no flush in between. -/
structure Sink.Continues (s s' : Sink) : Prop where
  device : s'.device = s.device
  flushes : s'.flushes = s.flushes

namespace Sink.Continues

theorem refl (s : Sink) : s.Continues s :=
  ⟨rfl, rfl⟩

theorem trans {s s' s'' : Sink} (h : s.Continues s') (h' : s'.Continues s'') : s.Continues s'' :=
  ⟨h'.device.trans h.device, h'.flushes.trans h.flushes⟩

theorem alwaysFlushes {s s' : Sink} (h : s.Continues s') (hflushes : s.device.AlwaysFlushes) :
    s'.device.AlwaysFlushes := by
  rw [h.device]
  exact hflushes

theorem overlooks {s s' : Sink} (h : s.Continues s') {flushes : Nat}
    (hoverlooks : s.Overlooks flushes) : s'.Overlooks flushes := by
  intro accepted refused line
  rw [h.device, h.flushes]
  exact hoverlooks accepted refused line

theorem write (s : Sink) (line : String) : s.Continues (s.write line).1 := by
  rw [Sink.write]
  cases s.device.onLine s.lines s.refused s.flushes line <;> exact ⟨rfl, rfl⟩

end Sink.Continues

namespace Action

variable {α β : Type}

/-- An action to which it makes no difference what was counted before, so far as it makes none to
the device, and which does not flush. -/
structure Shifts (x : Action α) : Prop where
  shifted : ∀ m steps flushes, m.sink.Overlooks flushes →
    x (m.shifted steps flushes) = (x m).shifted steps flushes
  sink : ∀ m : Machine, m.sink.Continues (x m).machine.sink

namespace Shifts

theorem bind {x : Action α} {f : α → Action β} (hx : x.Shifts) (hf : ∀ a, (f a).Shifts) :
    (x >>= f).Shifts where
  shifted m steps flushes hoverlooks := by
    have hfirst := hx.sink m
    rw [bind_apply, bind_apply, hx.shifted m steps flushes hoverlooks]
    cases hxm : x m with
    | finished a m' =>
        rw [hxm] at hfirst
        exact (hf a).shifted m' steps flushes (hfirst.overlooks hoverlooks)
    | halted reason m' => rfl
  sink m := by
    have hfirst := hx.sink m
    rw [bind_apply]
    cases hxm : x m with
    | finished a m' =>
        rw [hxm] at hfirst
        exact hfirst.trans ((hf a).sink m')
    | halted reason m' =>
        rw [hxm] at hfirst
        exact hfirst

theorem nothing (a : α) : (pure a : Action α).Shifts :=
  ⟨fun _ _ _ _ => rfl, fun m => .refl m.sink⟩

theorem halt (reason : Halt) : (Action.halt reason : Action α).Shifts :=
  ⟨fun _ _ _ _ => rfl, fun m => .refl m.sink⟩

theorem assign (name : String) (value : Int64) : (Action.assign name value).Shifts :=
  ⟨fun _ _ _ _ => rfl, fun m => .refl m.sink⟩

theorem tick {config : Config} (hlimit : config.stepLimit = none) :
    (Action.tick config).Shifts where
  shifted m steps flushes _ := by
    simp only [Action.tick, hlimit, Ending.shifted, Machine.shifted, Nat.add_right_comm]
  sink m := by
    rw [machine_tick]
    exact .refl m.sink

theorem print (value : Int64) : (Action.print value).Shifts where
  shifted m steps flushes hoverlooks := by
    simp only [Action.print, Sink.write, Machine.shifted,
      hoverlooks m.sink.lines m.sink.refused (outputLine value)]
    cases m.sink.device.onLine m.sink.lines m.sink.refused m.sink.flushes (outputLine value) <;> rfl
  sink m := by
    have hwrite := Sink.Continues.write m.sink (outputLine value)
    rw [Action.print]
    split
    · next hsink =>
      rw [hsink] at hwrite
      exact hwrite
    · next hsink =>
      rw [hsink] at hwrite
      exact hwrite

theorem value (p : Program) (id : ExprId) : (p.value id).Shifts where
  shifted m steps flushes _ := by
    have hsymbols : (m.shifted steps flushes).symbols = m.symbols := rfl
    rw [Program.value, Program.value, hsymbols]
    cases p.evaluate m.symbols id <;> rfl
  sink m := by
    rw [p.machine_value]
    exact .refl m.sink

end Shifts

end Action

namespace Program

open Betik.Action

variable {p : Program} {config : Config}

theorem actions_shift (p : Program) (hlimit : config.stepLimit = none) :
    Interpretation.Related (fun _ x _ => Shifts x) (p.actions config) (p.actions config) where
  nothing := .nothing ()
  bind := .bind
  tick := .tick hlimit
  holds condition := (Shifts.value p condition).bind fun _ => .nothing _
  assign name value := (Shifts.tick hlimit).bind fun _ =>
    (Shifts.value p value).bind fun result => .assign name result
  print value := (Shifts.tick hlimit).bind fun _ => (Shifts.value p value).bind fun _ => .print _
  stop reason := .halt reason

/-- The statements of a program do the same whatever was counted before. -/
theorem executeAll_shifts (p : Program) (hlimit : config.stepLimit = none) (fuel : Nat) :
    (executeAll (p.execute config fuel) p.body).Shifts := by
  rw [executeAll_eq_actions_body]
  exact (p.actions_shift hlimit).body p config.forLoop fuel

theorem executeAll_precedes (p : Program) (config : Config) (fuel : Nat) (m : Machine) :
    m.Precedes (executeAll (p.execute config fuel) p.body m).machine := by
  rw [executeAll_eq_actions_body]
  exact (p.body_truncates { config with stepLimit := some 0 } config rfl
    (fun _ _ => UInt64.le_iff_toNat_le.2 (Nat.zero_le _)) config.forLoop fuel).advances m

end Program

/-! ## Statements -/

namespace Stmt

open Betik.Action

variable {config : Config} {statements first second : List Stmt} {m m' : Machine} {o : Outcome}

/-- The rules give what the program of the statements does. -/
theorem exists_executeAll_eq_iff_runAll :
    (∃ fuel, Program.executeAll ((Program.ofTrees statements).execute config fuel)
      (Program.ofTrees statements).body m = o.ending m') ↔ RunAll config statements m o m' := by
  have hbody := Program.heldAllAt_ofTrees statements
  constructor
  · rintro ⟨fuel, hrun⟩
    rcases Program.executeAll_follows (Program.execute_follows _ config fuel) hbody m with
      ⟨m₁, hout⟩ | ⟨o₁, m₁, hending, hrunAll⟩
    · exact absurd (hrun.symm.trans hout) (o.ending_ne_outOfFuel m' m₁)
    · obtain ⟨rfl, rfl⟩ := Outcome.ending_inj.1 (hending.symm.trans hrun)
      exact hrunAll
  · intro h
    obtain ⟨least, hreaches⟩ := Program.reaches_of_runAll h hbody
    exact ⟨least, hreaches least (Nat.le_refl _)⟩

/-- Statements end alike whatever was counted before them and makes no difference to the device. -/
theorem runAll_shifted_iff (hlimit : config.stepLimit = none) {steps flushes : Nat}
    (hoverlooks : m.sink.Overlooks flushes) :
    RunAll config statements (m.shifted steps flushes) o m' ↔
      ∃ m₁, m' = m₁.shifted steps flushes ∧ RunAll config statements m o m₁ := by
  simp only [← exists_executeAll_eq_iff_runAll,
    (Program.executeAll_shifts _ hlimit _).shifted m steps flushes hoverlooks]
  constructor
  · rintro ⟨fuel, hrun⟩
    obtain ⟨m₁, hm₁, rfl⟩ := Ending.eq_ending_of_shifted hrun
    exact ⟨m₁, rfl, fuel, hm₁⟩
  · rintro ⟨m₁, rfl, fuel, hrun⟩
    exact ⟨fuel, by rw [hrun, Ending.shifted_ending]⟩

theorem RunAll.sink (hlimit : config.stepLimit = none) (h : RunAll config statements m o m') :
    m.sink.Continues m'.sink := by
  obtain ⟨fuel, hrun⟩ := exists_executeAll_eq_iff_runAll.2 h
  have hsink := (Program.executeAll_shifts (.ofTrees statements) hlimit fuel).sink m
  rwa [hrun, Outcome.machine_ending] at hsink

theorem RunAll.precedes (h : RunAll config statements m o m') : m.Precedes m' := by
  obtain ⟨fuel, hrun⟩ := exists_executeAll_eq_iff_runAll.2 h
  have hprecedes := (Program.ofTrees statements).executeAll_precedes config fuel m
  rwa [hrun, Outcome.machine_ending] at hprecedes

theorem runAll_append_iff :
    RunAll config (first ++ second) m o m' ↔
      Runnable.Sequence (RunAll config first) (RunAll config second) m o m' := by
  induction first generalizing m with
  | nil =>
      constructor
      · exact fun h => .done .nil h
      · rintro (⟨⟨⟩, h⟩ | ⟨⟨⟩⟩)
        exact h
  | cons s rest ih =>
      constructor
      · intro h
        cases h with
        | fails hs => exact .failed (.fails hs)
        | cons hs hrest =>
            cases ih.1 hrest with
            | done hfirst hsecond => exact .done (.cons hs hfirst) hsecond
            | failed hfirst => exact .failed (.cons hs hfirst)
      · intro h
        cases h with
        | failed hfirst =>
            cases hfirst with
            | fails hs => exact .fails hs
            | cons hs hrest => exact .cons hs (ih.2 (.failed hrest))
        | done hfirst hsecond =>
            cases hfirst with
            | cons hs hrest => exact .cons hs (ih.2 (.done hrest hsecond))

end Stmt

/-! ## Programs -/

/-- What one run leaves that does what two runs do, of which the first leaves `m` and the second
`m'`: the steps are those of both, and there is one flush less. -/
def Machine.merged (m m' : Machine) : Machine :=
  { m' with
    steps := m.steps + m'.steps
    sink := { m'.sink with flushes := m'.sink.flushes - 1 } }

theorem Machine.merged_shifted (m m₀ : Machine) :
    (m.shifted 0 1).merged ((m₀.shifted 0 1).shifted 0 1) =
      (m₀.shifted m.steps 0).shifted 0 1 := by
  simp [shifted, merged, Nat.add_comm m.steps]

theorem Machine.Precedes.flushed {m m' : Machine} (h : m.Precedes m') :
    m.Precedes { m' with sink := m'.sink.flush.1 } :=
  ⟨h.steps, h.lines, h.names⟩

namespace Stmt

variable {config : Config} {statements first second : List Stmt} {m m' : Machine} {o : Outcome}

/-- Where no flush is refused, a program is its statements and a flush. -/
theorem completes_iff (hlimit : config.stepLimit = none)
    (hflushes : m.sink.device.AlwaysFlushes) :
    Completes config statements m o m' ↔
      ∃ m₁, m' = m₁.shifted 0 1 ∧ RunAll config statements m.restarted o m₁ := by
  have haccepts : ∀ {o m₁}, RunAll config statements m.restarted o m₁ →
      m₁.sink.flush = (m₁.sink.flush.1, none) := by
    intro o m₁ hrun
    rw [Sink.flush, (hrun.sink hlimit).alwaysFlushes hflushes]
  constructor
  · intro h
    cases h with
    | failed hrun => exact ⟨_, rfl, hrun⟩
    | flushed hrun hflush =>
        obtain rfl := congrArg Prod.fst hflush
        exact ⟨_, rfl, hrun⟩
    | flushRefused hrun hflush =>
        rw [haccepts hrun] at hflush
        cases (Prod.mk.inj hflush).2
  · rintro ⟨m₁, rfl, hrun⟩
    cases o with
    | failed e => exact .failed hrun
    | done => exact .flushed hrun (haccepts hrun)

theorem Completes.precedes (h : Completes config statements m o m') : m.restarted.Precedes m' := by
  cases h with
  | failed hrun => exact hrun.precedes.flushed
  | flushed hrun hflush =>
      obtain rfl := congrArg Prod.fst hflush
      exact hrun.precedes.flushed
  | flushRefused hrun hflush =>
      obtain rfl := congrArg Prod.fst hflush
      exact hrun.precedes.flushed

theorem Completes.flushes (hlimit : config.stepLimit = none)
    (hflushes : m.sink.device.AlwaysFlushes) (h : Completes config statements m o m') :
    m'.sink.flushes = m.sink.flushes + 1 := by
  obtain ⟨m₁, rfl, hrun⟩ := (completes_iff hlimit hflushes).1 h
  exact congrArg (· + 1) (hrun.sink hlimit).flushes

theorem Completes.device (hlimit : config.stepLimit = none)
    (hflushes : m.sink.device.AlwaysFlushes) (h : Completes config statements m o m') :
    m'.sink.device = m.sink.device := by
  obtain ⟨m₁, rfl, hrun⟩ := (completes_iff hlimit hflushes).1 h
  exact (hrun.sink hlimit).device

/-- A program that fails leaves it at that if more statements come after it. -/
theorem Completes.append_of_failed (hlimit : config.stepLimit = none)
    (hflushes : m.sink.device.AlwaysFlushes) {e : Error}
    (h : Completes config first m (.failed e) m') (second : List Stmt) :
    Completes config (first ++ second) m (.failed e) m' := by
  obtain ⟨m₁, rfl, hrun⟩ := (completes_iff hlimit hflushes).1 h
  exact (completes_iff hlimit hflushes).2 ⟨m₁, rfl, runAll_append_iff.2 (.failed hrun)⟩

theorem runAll_restarted_iff (hlimit : config.stepLimit = none) :
    RunAll config statements m o m' ↔
      ∃ m₀, m' = m₀.shifted m.steps 0 ∧ RunAll config statements m.restarted o m₀ := by
  nth_rewrite 1 [← m.shifted_restarted]
  exact runAll_shifted_iff hlimit (Sink.overlooks_zero _)

theorem completes_shifted_iff (hlimit : config.stepLimit = none)
    (hflushes : m.sink.device.AlwaysFlushes) (hignores : m.sink.device.IgnoresFlushes) :
    Completes config statements (m.shifted 0 1) o m' ↔
      ∃ m₀, m' = (m₀.shifted 0 1).shifted 0 1 ∧ RunAll config statements m.restarted o m₀ := by
  rw [completes_iff (m := m.shifted 0 1) hlimit hflushes, Machine.restarted_shifted]
  have hoverlooks : m.restarted.sink.Overlooks 1 := Sink.overlooks_of_ignoresFlushes hignores 1
  simp only [runAll_shifted_iff hlimit hoverlooks]
  constructor
  · rintro ⟨_, rfl, m₀, rfl, hrun⟩
    exact ⟨m₀, rfl, hrun⟩
  · rintro ⟨m₀, rfl, hrun⟩
    exact ⟨_, rfl, m₀, rfl, hrun⟩

/-- A second list of statements does the same after a first as in a program of its own on the
machine that the first leaves when it is flushed. -/
theorem runAll_iff_completes (hlimit : config.stepLimit = none)
    (hflushes : m.sink.device.AlwaysFlushes) (hignores : m.sink.device.IgnoresFlushes) :
    (∃ m₁, m' = m₁.shifted 0 1 ∧ RunAll config statements m o m₁) ↔
      ∃ m₂, Completes config statements (m.shifted 0 1) o m₂ ∧
        m' = (m.shifted 0 1).merged m₂ := by
  -- Both come down to a run of the statements with nothing counted before.
  simp only [runAll_restarted_iff (m := m) hlimit,
    completes_shifted_iff hlimit hflushes hignores]
  constructor
  · rintro ⟨_, rfl, m₀, rfl, hrun⟩
    exact ⟨_, ⟨m₀, rfl, hrun⟩, (m.merged_shifted m₀).symm⟩
  · rintro ⟨_, ⟨m₀, rfl, hrun⟩, rfl⟩
    exact ⟨_, m.merged_shifted m₀, m₀, rfl, hrun⟩

/-- Statements one after the other fail as the first of them, or do what the two programs do one
after the other. -/
theorem completes_append_iff (hlimit : config.stepLimit = none)
    (hflushes : m.sink.device.AlwaysFlushes) (hignores : m.sink.device.IgnoresFlushes) :
    Completes config (first ++ second) m o m' ↔
      (∃ e, o = .failed e ∧ Completes config first m o m') ∨
      ∃ m₁ m₂, Completes config first m .done m₁ ∧ Completes config second m₁ o m₂ ∧
        m' = m₁.merged m₂ := by
  have hsecond_iff : ∀ {m₁}, RunAll config first m.restarted .done m₁ →
      ((∃ m₂, m' = m₂.shifted 0 1 ∧ RunAll config second m₁ o m₂) ↔
        ∃ m₂, Completes config second (m₁.shifted 0 1) o m₂ ∧
          m' = (m₁.shifted 0 1).merged m₂) := by
    intro m₁ hrun
    have hdevice := (hrun.sink hlimit).device
    exact runAll_iff_completes hlimit (hdevice ▸ hflushes) (hdevice ▸ hignores)
  simp only [completes_iff (m := m) hlimit hflushes, runAll_append_iff]
  constructor
  · rintro ⟨m', rfl, hrun⟩
    cases hrun with
    | failed hfirst => exact .inl ⟨_, rfl, m', rfl, hfirst⟩
    | done hfirst hsecond =>
        obtain ⟨m₂, hcompletes, hm'⟩ := (hsecond_iff hfirst).1 ⟨m', rfl, hsecond⟩
        exact .inr ⟨_, m₂, ⟨_, rfl, hfirst⟩, hcompletes, hm'⟩
  · rintro (⟨e, rfl, m', rfl, hfirst⟩ | ⟨_, m₂, ⟨m₁, rfl, hfirst⟩, hcompletes, rfl⟩)
    · exact ⟨m', rfl, .failed hfirst⟩
    · obtain ⟨m', hm', hsecond⟩ := (hsecond_iff hfirst).2 ⟨m₂, hcompletes, rfl⟩
      exact ⟨m', hm', .done hfirst hsecond⟩

end Stmt

/-! ## Texts -/

/-- The text of all lines from some moment on is made up of the texts up to a later moment and from
there on. -/
theorem Sink.textFrom_append {s s₁ s₂ : Sink} (h : s.lines.toList <+: s₁.lines.toList)
    (h' : s₁.lines.toList <+: s₂.lines.toList) :
    s₁.textFrom s.lines.size ++ s₂.textFrom s₁.lines.size = s₂.textFrom s.lines.size := by
  obtain ⟨printed, hprinted⟩ := h
  obtain ⟨more, hmore⟩ := h'
  simp only [textFrom, ← Array.length_toList]
  rw [← hmore, List.drop_left, ← hprinted, List.append_assoc, List.drop_left, List.drop_left,
    String.join_append]

theorem Sink.textFrom_size (s : Sink) : s.textFrom s.lines.size = "" := by
  rw [textFrom, ← Array.length_toList, List.drop_length]
  rfl

/-- A text is a program if its tokens are those of statements and its numerals fit. -/
theorem Program.ofText_eq_ok_iff_spells {text : String} {p : Program} :
    ofText text = .ok p ↔ ∃ statements, Grammar.Spells text statements ∧
      Grammar.NumeralsFit (Grammar.Statement.tokensOf statements) ∧
      ofTrees (statements.map Grammar.Statement.tree) = p := by
  simp only [ofText_eq_ok_iff, Grammar.programs_iff]
  constructor
  · rintro ⟨_, _, htokens, ⟨statements, rfl, rfl, hfit⟩, rfl⟩
    exact ⟨statements, htokens, hfit, rfl⟩
  · rintro ⟨statements, hspells, hfit, rfl⟩
    exact ⟨_, _, hspells, ⟨statements, rfl, rfl, hfit⟩, rfl⟩

theorem Grammar.Spells.ofText {text : String} {statements : List Grammar.Statement}
    (h : Grammar.Spells text statements)
    (hfit : Grammar.NumeralsFit (Grammar.Statement.tokensOf statements)) :
    Program.ofText text = .ok (.ofTrees (statements.map Grammar.Statement.tree)) :=
  Program.ofText_eq_ok_iff_spells.2 ⟨statements, h, hfit, rfl⟩

/-- Two texts that are programs are a program when joined by a line break, with the statements of
both. -/
theorem Program.ofText_append_feed {a b : String} {p q : Program} (ha : ofText a = .ok p)
    (hb : ofText b = .ok q) :
    ∃ first second, ofTrees first = p ∧ ofTrees second = q ∧
      ofText (a ++ "\n" ++ b) = .ok (ofTrees (first ++ second)) := by
  obtain ⟨first, hfirst, hfit, rfl⟩ := ofText_eq_ok_iff_spells.1 ha
  obtain ⟨second, hsecond, hfit', rfl⟩ := ofText_eq_ok_iff_spells.1 hb
  have hfits : Grammar.NumeralsFit (Grammar.Statement.tokensOf (first ++ second)) := by
    rw [Grammar.Statement.tokensOf_append, Grammar.numeralsFit_append]
    exact ⟨hfit, hfit'⟩
  have hjoined := (hfirst.append hsecond).ofText hfits
  rw [List.map_append] at hjoined
  exact ⟨_, _, rfl, rfl, hjoined⟩

namespace Machine

variable {m m' : Machine} {config : Config} {report : Report}

theorem Ends.device {text : String} {trees : List Stmt} (h : m.Ends config text m' report)
    (htext : Program.ofText text = .ok (.ofTrees trees)) (hlimit : config.stepLimit = none)
    (hflushes : m.sink.device.AlwaysFlushes) : m'.sink.device = m.sink.device := by
  obtain ⟨o, hcompletes, -⟩ := (ends_iff_completes htext).1 h
  exact hcompletes.device hlimit hflushes

/-- A program of no statements prints nothing and leaves the variables as they are. -/
theorem Ends.of_nil {text : String} (h : m.Ends config text m' report)
    (htext : Program.ofText text = .ok (.ofTrees [])) (hlimit : config.stepLimit = none)
    (hflushes : m.sink.device.AlwaysFlushes) :
    report.output = "" ∧ m'.symbols = m.symbols := by
  obtain ⟨o, hcompletes, rfl⟩ := (ends_iff_completes htext).1 h
  obtain ⟨_, rfl, ⟨⟩⟩ := (Stmt.completes_iff hlimit hflushes).1 hcompletes
  exact ⟨m.sink.textFrom_size, rfl⟩

/-- Where no flush is refused and none changes the answer to a line, a text that means what two
texts mean one after the other fails as the first of them, or does what running one after the other
does. -/
theorem ends_append_iff {a b joined : String} {first second : List Stmt}
    (ha : Program.ofText a = .ok (.ofTrees first))
    (hb : Program.ofText b = .ok (.ofTrees second))
    (hjoined : Program.ofText joined = .ok (.ofTrees (first ++ second)))
    (hlimit : config.stepLimit = none) (hflushes : m.sink.device.AlwaysFlushes)
    (hignores : m.sink.device.IgnoresFlushes) :
    m.Ends config joined m' report ↔
      (∃ e, report.result = .error (.fault e) ∧ m.Ends config a m' report) ∨
      ∃ m₁ m₂ earlier later, earlier.result = .ok () ∧ m.Ends config a m₁ earlier ∧
        m₁.Ends config b m₂ later ∧ m' = m₁.merged m₂ ∧
        report = { later with output := earlier.output ++ later.output } := by
  have hreport : ∀ {o m₁ m₂}, Stmt.Completes config first m .done m₁ →
      Stmt.Completes config second m₁ o m₂ → run.report m o.result (m₁.merged m₂) =
        { run.report m₁ o.result m₂ with
          output := (run.report m (.ok ()) m₁).output ++ (run.report m₁ o.result m₂).output } := by
    intro o m₁ m₂ hfirst hsecond
    -- Each run flushes once, so one flush less is one flush for both.
    have hflushed := hfirst.flushes hlimit hflushes
    have hdevice := hfirst.device hlimit hflushes
    have hflushed' := hsecond.flushes hlimit (hdevice ▸ hflushes)
    have houtput := Sink.textFrom_append hfirst.precedes.lines hsecond.precedes.lines
    have hone : m₂.sink.flushes - 1 - m.sink.flushes = m₂.sink.flushes - m₁.sink.flushes := by
      omega
    simp only [run.report, merged, hone, Report.mk.injEq, true_and, and_true]
    exact houtput.symm
  simp only [ends_iff_completes ha, ends_iff_completes hb, ends_iff_completes hjoined,
    Stmt.completes_append_iff hlimit hflushes hignores]
  constructor
  · rintro ⟨o, ⟨e, rfl, hfirst⟩ | ⟨m₁, m₂, hfirst, hsecond, rfl⟩, rfl⟩
    · exact .inl ⟨e, rfl, .failed e, hfirst, rfl⟩
    · exact .inr ⟨m₁, m₂, _, _, rfl, ⟨.done, hfirst, rfl⟩, ⟨o, hsecond, rfl⟩, rfl,
        hreport hfirst hsecond⟩
  · rintro (⟨e, he, o, hfirst, rfl⟩ |
      ⟨m₁, m₂, _, _, hok, ⟨o₁, hfirst, rfl⟩, ⟨o, hsecond, rfl⟩, rfl, rfl⟩)
    · obtain rfl : o = .failed e := Outcome.result_inj.1 he
      exact ⟨_, .inl ⟨e, rfl, hfirst⟩, rfl⟩
    · obtain rfl : o₁ = .done := Outcome.result_inj.1 hok
      exact ⟨o, .inr ⟨m₁, m₂, hfirst, hsecond, rfl⟩, (hreport hfirst hsecond).symm⟩

/-- Two texts that are programs are a program when joined by a line break. Without a step limit and
where no flush is refused, running it is running one after the other: if the first fails, it fails
alike and leaves the same machine; if not, and if no flush changes the answer to a line, it ends as
the second does after the first, with the variables that the second leaves, the output of both and
the steps of both. -/
theorem ends_joined {a b : String} {p q : Program} (ha : Program.ofText a = .ok p)
    (hb : Program.ofText b = .ok q) :
    (∃ joined, Program.ofText (a ++ "\n" ++ b) = .ok joined) ∧
    ∀ (mode : ForLoop) (m m₁ : Machine) (first : Report), m.sink.device.AlwaysFlushes →
      m.Ends { forLoop := mode } a m₁ first →
      (first.result = .ok () → m.sink.device.IgnoresFlushes →
        ∀ m₂ second, m₁.Ends { forLoop := mode } b m₂ second →
        m.Ends { forLoop := mode } (a ++ "\n" ++ b) (m₁.merged m₂)
          { second with output := first.output ++ second.output }) ∧
      ∀ e, first.result = .error (.fault e) →
        m.Ends { forLoop := mode } (a ++ "\n" ++ b) m₁ first := by
  obtain ⟨trees, trees', rfl, rfl, hjoined⟩ := Program.ofText_append_feed ha hb
  refine ⟨⟨_, hjoined⟩, fun mode m m₁ first hflushes hfirst => ⟨?_, ?_⟩⟩
  · intro hok hignores m₂ second hsecond
    refine (ends_append_iff ha hb hjoined rfl hflushes hignores).2 (.inr ?_)
    exact ⟨m₁, m₂, first, second, hok, hfirst, hsecond, rfl, rfl⟩
  · intro e he
    obtain ⟨o, hcompletes, rfl⟩ := (ends_iff_completes ha).1 hfirst
    obtain rfl : o = .failed e := Outcome.result_inj.1 he
    exact (ends_iff_completes hjoined).2 ⟨_, hcompletes.append_of_failed rfl hflushes trees', rfl⟩

/-- `x = 2;` and `yazdır(x); x = y;`, of which the second fails, joined in both orders. -/
theorem ends_joined_failing :
    let a := "x = 2;"
    let b := "yazdır(x); x = y;"
    let m : Machine :=
      { symbols := SymbolTable.empty.assign "x" 7, sink := { device := .accepting } }
    let undefined : Except Halt Unit := .error (.fault (.undefinedVariable "y"))
    (∃ m' report, m.Ends {} (a ++ "\n" ++ b) m' report ∧ report.result = undefined ∧
      report.output = "TURKON Output: 2\n" ∧ m'.steps = 3 ∧ m'.symbols.get? "x" = some 2) ∧
    ∃ m' report, m.Ends {} (b ++ "\n" ++ a) m' report ∧ report.result = undefined ∧
      report.output = "TURKON Output: 7\n" ∧ m'.steps = 2 ∧ m'.symbols.get? "x" = some 7 := by
  intro a b m undefined
  have ha : Program.ofText a = .ok (.ofTrees [.assign ⟨"x", .number 2⟩]) := by decide +kernel
  have hb : Program.ofText b =
      .ok (.ofTrees [.print (.name "x"), .assign ⟨"x", .name "y"⟩]) := by decide +kernel
  have hok : (m.runText {} 8 a).2.result = .ok () := by decide +kernel
  have hfails : (m.runText {} 8 b).2.result = undefined := by decide +kernel
  have hfails' : ((m.runText {} 8 a).1.runText {} 8 b).2.result = undefined := by decide +kernel
  have hflushes : m.sink.device.AlwaysFlushes := fun _ _ => rfl
  have hignores : m.sink.device.IgnoresFlushes := fun _ _ _ _ => rfl
  have hsecond := ((ends_joined ha hb).2 .conventional m _ _ hflushes
    (ends_runText hok (by simp))).1 hok hignores _ _ (ends_runText hfails' (by decide))
  have hfirst := ((ends_joined hb ha).2 .conventional m _ _ hflushes
    (ends_runText hfails (by decide))).2 _ hfails
  exact ⟨⟨_, _, hsecond, by decide +kernel⟩, ⟨_, _, hfirst, by decide +kernel⟩⟩

end Machine

/-- A device with room for one line, and for one more after each flush. -/
def Device.widening : Device where
  onLine accepted _ flushes _ := if accepted.size ≤ flushes then none else some "sink full"
  onFlush _ _ := none

namespace Machine

/-- On a device that makes room when it is flushed, `yazdır(1);` and `yazdır(2);` end well one after
the other, but not joined: the flush in between is missing. -/
theorem ends_joined_refused :
    let a := "yazdır(1);"
    let b := "yazdır(2);"
    let m : Machine := { sink := { device := .widening } }
    m.sink.device.AlwaysFlushes ∧
    (∃ m₁ m₂ first second, m.Ends {} a m₁ first ∧ first.result = .ok () ∧
      m₁.Ends {} b m₂ second ∧ second.result = .ok () ∧
      first.output ++ second.output = "TURKON Output: 1\nTURKON Output: 2\n") ∧
    (∃ m' report, m.Ends {} (a ++ "\n" ++ b) m' report) ∧
    ∀ m' report, m.Ends {} (a ++ "\n" ++ b) m' report →
      report.result = .error (.fault (.output "sink full")) ∧
      report.output = "TURKON Output: 1\n" := by
  intro a b m
  let m₁ := (m.runText {} 8 a).1
  have hfirst : (m.runText {} 8 a).2.result = .ok () := by decide +kernel
  have hsecond : (m₁.runText {} 8 b).2.result = .ok () := by decide +kernel
  have hjoined : (m.runText {} 8 (a ++ "\n" ++ b)).2.result =
      .error (.fault (.output "sink full")) := by decide +kernel
  have hends := ends_runText hjoined (by decide)
  refine ⟨fun _ _ => rfl, ⟨_, _, _, _, ends_runText hfirst (by simp), hfirst,
    ends_runText hsecond (by simp), hsecond, by decide +kernel⟩, ⟨_, _, hends⟩, ?_⟩
  intro m' report hother
  obtain ⟨-, rfl⟩ := hends.unique hother
  exact ⟨hjoined, by decide +kernel⟩

end Machine

end Betik
