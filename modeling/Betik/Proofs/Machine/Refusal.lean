import Betik.Proofs.Machine.Limit
import Betik.Proofs.Machine.Sequence

/-!
# Refused output

A device that refuses a line ends the run at once, so a sink with less room only cuts a run short:
what the run did before the first refused line it does on every sink, and nothing after it. A device
that refuses the flush at the end changes nothing but the outcome, and that only if the run has not
failed by itself. Main statement: a run on a sink with room for so many lines, and on one that
refuses the flush, compared with the run on a sink that accepts everything.
-/

namespace Betik

/-! ## Sinks with room -/

/-- The next `count` lines are accepted, whatever they are. -/
def Sink.Admits (s : Sink) (count : Nat) : Prop :=
  ∀ (more : Array String) (line : String), more.size < count →
    s.device.onLine (s.lines ++ more) s.refused s.flushes line = none

/-- The next `room` lines are accepted, whatever they are, and the one after them is not. -/
structure Sink.HasRoom (s : Sink) (room : Nat) : Prop where
  admits : s.Admits room
  refuses : ∀ (more : Array String) (line : String), more.size = room →
    s.device.onLine (s.lines ++ more) s.refused s.flushes line ≠ none

namespace Sink

variable {s : Sink}

theorem admits_of_accepting (h : s.device = .accepting) (count : Nat) : s.Admits count := by
  intro more line _
  rw [h]
  rfl

/-- A device with room for some lines has room for those it has not accepted yet. -/
theorem hasRoom_limited {capacity room : Nat} {closed : Bool}
    (hdevice : s.device = .limited (some capacity) closed)
    (hroom : s.lines.size + room = capacity) : s.HasRoom room where
  admits more line hmore := by
    have hsize : s.lines.size + more.size < capacity := by omega
    simp [hdevice, Device.limited, hsize]
  refuses more line hmore := by
    have hsize : ¬ s.lines.size + more.size < capacity := by omega
    simp [hdevice, Device.limited, hsize]

/-- The sink after a line that was accepted. -/
def accepted (s : Sink) (line : String) : Sink :=
  { s with lines := s.lines.push line }

theorem write_of_admits {count : Nat} (h : s.Admits (count + 1)) (line : String) :
    s.write line = (s.accepted line, none) := by
  have hnow := h #[] line (Nat.succ_pos count)
  rw [Array.append_empty] at hnow
  rw [write, hnow]
  rfl

theorem Admits.mono {count fewer : Nat} (h : s.Admits count) (hle : fewer ≤ count) :
    s.Admits fewer :=
  fun more line hmore => h more line (Nat.lt_of_lt_of_le hmore hle)

theorem Admits.accepted {count : Nat} (h : s.Admits (count + 1)) (line : String) :
    (s.accepted line).Admits count := by
  intro more next hmore
  have hlater := h (#[line] ++ more) next (by simp; omega)
  simpa only [Sink.accepted, Array.push_eq_append, Array.append_assoc] using hlater

theorem HasRoom.accepted {room : Nat} (h : s.HasRoom (room + 1)) (line : String) :
    (s.accepted line).HasRoom room where
  admits := h.admits.accepted line
  refuses more next hmore := by
    have hlater := h.refuses (#[line] ++ more) next (by simp; omega)
    simpa only [Sink.accepted, Array.push_eq_append, Array.append_assoc] using hlater

theorem HasRoom.write_zero (h : s.HasRoom 0) (line : String) :
    ∃ cause, s.write line = ({ s with refused := s.refused + 1 }, some cause) := by
  have hnow := h.refuses #[] line rfl
  rw [Array.append_empty] at hnow
  obtain ⟨cause, hcause⟩ := Option.ne_none_iff_exists'.1 hnow
  exact ⟨cause, by rw [write, hcause]⟩

end Sink

/-! ## Lines of effects -/

namespace Effect

/-- The lines that effects print. -/
def linesOf : List Effect → List String
  | [] => []
  | assigned _ _ :: rest => linesOf rest
  | printed value :: rest => Action.outputLine value :: linesOf rest

theorem linesOf_append (first second : List Effect) :
    linesOf (first ++ second) = linesOf first ++ linesOf second := by
  induction first with
  | nil => rfl
  | cons effect rest ih =>
      cases effect with
      | assigned name value => exact ih
      | printed value => exact congrArg _ ih

/-- Effects change the variables alike whatever the sink. -/
theorem symbols_performAll {m m' : Machine} (h : m.symbols = m'.symbols) (effects : List Effect) :
    (performAll effects m).symbols = (performAll effects m').symbols := by
  induction effects generalizing m m' with
  | nil => exact h
  | cons effect rest ih =>
      refine ih ?_
      cases effect with
      | assigned name value => exact congrArg (·.assign name value) h
      | printed value => exact (symbols_print value m).trans (h.trans (symbols_print value m').symm)

theorem sink_performAll (effects : List Effect) (m : Machine) :
    m.sink.Continues (performAll effects m).sink := by
  induction effects generalizing m with
  | nil => exact .refl m.sink
  | cons effect rest ih =>
      refine Sink.Continues.trans ?_ (ih _)
      cases effect with
      | assigned name value => exact .refl m.sink
      | printed value => exact (Action.Shifts.print value).sink m

theorem machine_print_of_admits {m : Machine} {count : Nat} (h : m.sink.Admits (count + 1))
    (value : Int64) :
    Action.print value m =
      .finished () { m with sink := m.sink.accepted (Action.outputLine value) } := by
  rw [Action.print, Sink.write_of_admits h]

/-- Lines that are admitted are all accepted. -/
theorem lines_performAll {effects : List Effect} {m : Machine}
    (h : m.sink.Admits (linesOf effects).length) :
    (performAll effects m).sink.lines.toList = m.sink.lines.toList ++ linesOf effects := by
  induction effects generalizing m with
  | nil => exact (List.append_nil _).symm
  | cons effect rest ih =>
      cases effect with
      | assigned name value => exact ih h
      | printed value =>
          rw [performAll, perform, machine_print_of_admits h]
          refine (ih (h.accepted _)).trans ?_
          simp [Ending.machine, Sink.accepted, linesOf]

theorem hasRoom_performAll {effects : List Effect} {m : Machine} {room : Nat}
    (h : m.sink.HasRoom ((linesOf effects).length + room)) :
    (performAll effects m).sink.HasRoom room := by
  induction effects generalizing m with
  | nil => rwa [linesOf, List.length_nil, Nat.zero_add] at h
  | cons effect rest ih =>
      cases effect with
      | assigned name value => exact ih h
      | printed value =>
          rw [linesOf, List.length_cons, Nat.succ_add] at h
          rw [performAll, perform, machine_print_of_admits h.admits]
          exact ih (h.accepted _)

/-- A line beyond the room leaves no trace in the output. -/
theorem lines_performAll_concat {before : List Effect} {m : Machine}
    (h : m.sink.HasRoom (linesOf before).length) (value : Int64) :
    (performAll (before ++ [printed value]) m).sink.lines.toList =
      m.sink.lines.toList ++ linesOf before := by
  obtain ⟨cause, hwrite⟩ := (hasRoom_performAll h).write_zero (Action.outputLine value)
  rw [performAll_append, performAll, performAll, perform, Action.print, hwrite]
  exact lines_performAll h.admits

end Effect

/-! ## Two runs -/

/-- The same moment of a run on a sink that accepts everything and of one on a sink with room for
so many lines. -/
structure Machine.Beside (room : Nat) (m m' : Machine) : Prop where
  symbols : m'.symbols = m.symbols
  steps : m'.steps = m.steps
  accepting : m.sink.device = .accepting
  hasRoom : m'.sink.HasRoom room

/-- The ending with its machine changed. -/
def Ending.onMachine {α : Type} (change : Machine → Machine) : Ending α → Ending α
  | finished a m => finished a (change m)
  | halted reason m => halted reason (change m)

theorem Outcome.onMachine_ending (o : Outcome) (m : Machine) (change : Machine → Machine) :
    (o.ending m).onMachine change = o.ending (change m) := by
  cases o <;> rfl

/-- How a recorded action ends on a sink that accepts everything and on one with room for so many
lines: alike, or on the second at the first line beyond the room. -/
inductive Recorded.Curtailed {α : Type} (room : Nat) : Recorded α → Recorded α → Prop where
  | kept {ending m' effects rest} :
      (Effect.linesOf effects).length + rest = room → ending.machine.Beside rest m' →
      Curtailed room ⟨ending, effects⟩ ⟨ending.onMachine fun _ => m', effects⟩
  | refused {ending before value after cause m'} :
      (Effect.linesOf before).length = room → m'.steps ≤ ending.machine.steps →
      Curtailed room ⟨ending, before ++ .printed value :: after⟩
        ⟨.halted (.fault (.output cause)) m', before ++ [.printed value]⟩

/-- Effects that were within the room may come before. -/
theorem Recorded.Curtailed.after {α : Type} {room rest : Nat} {r r' : Recorded α}
    {effects : List Effect} (hroom : (Effect.linesOf effects).length + rest = room)
    (h : r.Curtailed rest r') :
    Curtailed room ⟨r.ending, effects ++ r.effects⟩ ⟨r'.ending, effects ++ r'.effects⟩ := by
  cases h with
  | kept hrest hbeside =>
      refine .kept ?_ hbeside
      simp only [Effect.linesOf_append, List.length_append]
      omega
  | refused hrest hsteps =>
      simp only [← List.append_assoc]
      refine .refused ?_ hsteps
      rw [Effect.linesOf_append, List.length_append]
      omega

namespace Recording

variable {α β : Type}

theorem silent_bind (x : Action α) (f : α → Action β) :
    silent (x >>= f) = silent x >>= fun a => silent (f a) := by
  funext m
  cases hx : x m with
  | finished a m' =>
      rw [bind_of_finished (x := silent x) hx, silent, Action.bind_of_finished hx]
      rfl
  | halted reason m' =>
      rw [bind_of_halted (x := silent x) hx, silent, Action.bind_of_halted hx]
      rfl

/-- No step is taken back, and less room only cuts the action short. -/
structure Curtails (x : Recording α) : Prop where
  steps : ∀ m, m.steps ≤ (x m).ending.machine.steps
  curtailed : ∀ {room m m'}, m.Beside room m' → (x m).Curtailed room (x m')

namespace Curtails

theorem bind {x : Recording α} {f : α → Recording β} (hx : x.Curtails)
    (hf : ∀ a, (f a).Curtails) : (x >>= f).Curtails where
  steps m := by
    have hfirst := hx.steps m
    cases hending : (x m).ending with
    | finished a m₁ =>
        rw [hending] at hfirst
        rw [bind_of_finished hending]
        exact Nat.le_trans hfirst ((hf a).steps m₁)
    | halted reason m₁ =>
        rw [hending] at hfirst
        rw [bind_of_halted hending]
        exact hfirst
  curtailed {room m m'} hbeside := by
    have hfirst := hx.curtailed hbeside
    rcases hxm : x m with ⟨ending, effects⟩
    rcases hxm' : x m' with ⟨ending', effects'⟩
    rw [hxm, hxm'] at hfirst
    cases hfirst with
    | kept hroom hafter =>
        cases ending with
        | finished a m₁ =>
            rw [bind_of_finished (congrArg Recorded.ending hxm),
              bind_of_finished (congrArg Recorded.ending hxm'), hxm, hxm']
            exact ((hf a).curtailed hafter).after hroom
        | halted reason m₁ =>
            rw [bind_of_halted (congrArg Recorded.ending hxm),
              bind_of_halted (congrArg Recorded.ending hxm'), hxm, hxm']
            exact .kept hroom hafter
    | @refused _ before value after cause m₁' hroom hsteps =>
        rw [bind_of_halted (congrArg Recorded.ending hxm'), hxm']
        -- What the second action does after the refused line, it does only on the larger sink.
        cases ending with
        | finished a m₁ =>
            rw [bind_of_finished (congrArg Recorded.ending hxm), hxm, List.append_assoc,
              List.cons_append]
            exact .refused hroom (Nat.le_trans hsteps ((hf a).steps m₁))
        | halted reason m₁ =>
            rw [bind_of_halted (congrArg Recorded.ending hxm), hxm]
            exact .refused hroom hsteps

/-- An action without effects that ends alike on machines that differ in their sinks. -/
theorem silent {x : Action α} (hsteps : ∀ m : Machine, m.steps ≤ (x m).machine.steps)
    (hx : ∀ {room m m'}, m.Beside room m' →
      ∃ m₁, x m' = (x m).onMachine (fun _ => m₁) ∧ (x m).machine.Beside room m₁) :
    (silent x).Curtails where
  steps := hsteps
  curtailed {room m m'} hbeside := by
    obtain ⟨m₁, hm', hafter⟩ := hx hbeside
    simp only [Recording.silent, hm']
    exact .kept (Nat.zero_add room) hafter

theorem tick (config : Config) : (Recording.silent (Action.tick config)).Curtails := by
  refine silent (fun m => ?_) fun {room m m'} hbeside => ?_
  · rw [Action.machine_tick]
    exact Nat.le_succ _
  · obtain ⟨hsymbols, hsteps, haccepting, hroom⟩ := hbeside
    have hcounted : m'.counted.steps = m.counted.steps := congrArg (· + 1) hsteps
    have hafter : m.counted.Beside room m'.counted := ⟨hsymbols, hcounted, haccepting, hroom⟩
    rcases config.allows_or_exceeds m.counted.steps with hallows | ⟨limit, hexceeds⟩
    · rw [Action.tick_of_allows hallows, Action.tick_of_allows (m := m') (hcounted ▸ hallows)]
      exact ⟨_, rfl, hafter⟩
    · rw [Action.tick_of_exceeds hexceeds, Action.tick_of_exceeds (m := m') (hcounted ▸ hexceeds)]
      exact ⟨_, rfl, hafter⟩

theorem value (p : Program) (id : ExprId) : (Recording.silent (p.value id)).Curtails := by
  refine silent (fun m => ?_) fun {room m m'} hbeside => ?_
  · rw [p.machine_value]
  · simp only [Program.value, hbeside.symbols]
    cases p.evaluate m.symbols id <;> exact ⟨m', rfl, hbeside⟩

theorem nothing (a : α) : (pure a : Recording α).Curtails where
  steps _ := Nat.le_refl _
  curtailed {room _ _} hbeside := .kept (Nat.zero_add room) hbeside

theorem holds (p : Program) (id : ExprId) : (Recording.silent (p.holds id)).Curtails := by
  rw [Program.holds, silent_bind]
  exact (value p id).bind fun v => nothing (v != 0)

theorem stop (reason : Halt) : (Recording.silent (Action.halt reason : Action α)).Curtails where
  steps _ := Nat.le_refl _
  curtailed {room _ _} hbeside := .kept (Nat.zero_add room) hbeside

theorem assigned (name : String) (value : Int64) :
    (performed (.assigned name value)).Curtails where
  steps _ := Nat.le_refl _
  curtailed {room m m'} hbeside := by
    obtain ⟨hsymbols, hsteps, haccepting, hroom⟩ := hbeside
    refine .kept (Nat.zero_add room) ⟨?_, hsteps, haccepting, hroom⟩
    exact congrArg (·.assign name value) hsymbols

/-- Only a print tells the sinks apart, and only when there is no room left. -/
theorem printed (value : Int64) : (performed (.printed value)).Curtails where
  steps m := Nat.le_of_eq (Action.steps_print value m).symm
  curtailed {room m m'} hbeside := by
    obtain ⟨hsymbols, hsteps, haccepting, hroom⟩ := hbeside
    have haccepts := Effect.machine_print_of_admits
      (Sink.admits_of_accepting haccepting 1) value
    cases room with
    | zero =>
        obtain ⟨cause, hwrite⟩ := hroom.write_zero (Action.outputLine value)
        have hrefuses : Action.print value m' = .halted (.fault (.output cause))
            { m' with sink := { m'.sink with refused := m'.sink.refused + 1 } } := by
          rw [Action.print, hwrite]
        simp only [performed, Effect.perform, haccepts, hrefuses]
        exact @Recorded.Curtailed.refused _ 0 _ [] value [] cause _ rfl (Nat.le_of_eq hsteps)
    | succ room =>
        have haccepts' := Effect.machine_print_of_admits hroom.admits value
        simp only [performed, Effect.perform, haccepts, haccepts']
        exact .kept (Nat.add_comm 1 room) ⟨hsymbols, hsteps, haccepting, hroom.accepted _⟩

theorem elementary (p : Program) (config : Config) {effect : Int64 → Effect}
    (heffect : ∀ result, (performed (effect result)).Curtails) (id : ExprId) :
    (elementary p config effect id).Curtails :=
  (tick config).bind fun _ => (value p id).bind heffect

end Curtails

end Recording

namespace Program

open Recording

theorem recordings_curtail (p : Program) (config : Config) :
    Interpretation.Related (fun _ x _ => Curtails x) (p.recordings config)
      (p.recordings config) where
  nothing := .nothing ()
  bind := .bind
  tick := .tick config
  holds := .holds p
  assign name := .elementary p config (.assigned name)
  print := .elementary p config .printed
  stop := .stop

end Program

/-! ## Flushes -/

/-- It makes no difference whether a machine is changed before the action or after it. -/
def Action.Commutes {α : Type} (change : Machine → Machine) (x : Action α) : Prop :=
  ∀ m, x (change m) = (x m).onMachine change

namespace Action.Commutes

variable {α β : Type} {change : Machine → Machine}

theorem bind {x : Action α} {f : α → Action β} (hx : x.Commutes change)
    (hf : ∀ a, (f a).Commutes change) : (x >>= f).Commutes change := by
  intro m
  rw [bind_apply, bind_apply, hx]
  cases x m with
  | finished a m' => exact hf a m'
  | halted reason m' => rfl

end Action.Commutes

/-- The sink on a device that answers flushes like this. -/
def Sink.flushedBy (s : Sink) (onFlush : Array String → Nat → Option String) : Sink :=
  { s with device := { s.device with onFlush } }

/-- The machine with its flushes answered like this. -/
def Machine.flushedBy (m : Machine) (onFlush : Array String → Nat → Option String) : Machine :=
  { m with sink := m.sink.flushedBy onFlush }

namespace Program

open Betik.Action

/-- What statements do does not depend on how flushes are answered. -/
theorem actions_commute (p : Program) (config : Config)
    (onFlush : Array String → Nat → Option String) :
    Interpretation.Related (fun _ x _ => Commutes (·.flushedBy onFlush) x) (p.actions config)
      (p.actions config) := by
  have htick : (tick config).Commutes (·.flushedBy onFlush) := by
    intro m
    rcases config.allows_or_exceeds m.counted.steps with hallows | ⟨limit, hexceeds⟩
    · rw [tick_of_allows hallows, tick_of_allows (m := m.flushedBy onFlush) hallows]
      rfl
    · rw [tick_of_exceeds hexceeds, tick_of_exceeds (m := m.flushedBy onFlush) hexceeds]
      rfl
  have hvalue : ∀ id, (p.value id).Commutes (·.flushedBy onFlush) := by
    intro id m
    simp only [Program.value, Machine.flushedBy]
    cases p.evaluate m.symbols id <;> rfl
  have hprint : ∀ value, (print value).Commutes (·.flushedBy onFlush) := by
    intro value m
    simp only [print, Sink.write, Machine.flushedBy, Sink.flushedBy]
    cases m.sink.device.onLine m.sink.lines m.sink.refused m.sink.flushes (outputLine value) <;> rfl
  exact
    { nothing := fun _ => rfl
      bind := .bind
      tick := htick
      holds := fun condition => (hvalue condition).bind fun _ _ => rfl
      assign := fun name value => htick.bind fun _ => (hvalue value).bind fun _ _ => rfl
      print := fun value => htick.bind fun _ => (hvalue value).bind fun result => hprint result
      stop := fun _ _ => rfl }

end Program

/-- The outcome of a run after its flush, which may have been refused. -/
def Outcome.afterFlush : Outcome → Option String → Outcome
  | done, some cause => failed (.output cause)
  | o, _ => o

@[simp]
theorem Outcome.afterFlush_none (o : Outcome) : o.afterFlush none = o := by
  cases o <;> rfl

/-- The flush at the end of a run, asked of the sink that the run leaves. -/
theorem Outcome.flushed_ending (o : Outcome) (m : Machine) :
    (o.ending m).flushed =
      (o.afterFlush (m.sink.device.onFlush m.sink.lines m.sink.flushes)).ending
        { m with sink := m.sink.flush.1 } := by
  cases o with
  | failed e => rfl
  | done =>
      simp only [ending, Ending.flushed, Sink.flush]
      cases m.sink.device.onFlush m.sink.lines m.sink.flushes <;> rfl

theorem Outcome.flushed_ending_of_alwaysFlushes {m : Machine} (h : m.sink.device.AlwaysFlushes)
    (o : Outcome) : (o.ending m).flushed = o.ending { m with sink := m.sink.flush.1 } := by
  rw [flushed_ending, h, afterFlush_none]

theorem Ending.exists_eq_ending_of_flushed {ending : Ending Unit} {o : Outcome} {m : Machine}
    (h : ending.flushed = o.ending m) : ∃ o₁ m₁, ending = Outcome.ending o₁ m₁ := by
  cases ending with
  | finished value m₁ => exact ⟨.done, m₁, rfl⟩
  | halted reason m₁ =>
      cases o with
      | done => cases h
      | failed e =>
          cases h
          exact ⟨.failed e, m₁, rfl⟩

namespace Program

/-- Statements do not flush. -/
theorem body_continues (p : Program) (config : Config) (fuel : Nat) (m : Machine) :
    m.sink.Continues ((p.actions config).body p config.forLoop fuel m).machine.sink := by
  have heffects := ((p.recordings_faithful config).body p config.forLoop fuel).effects m
  rw [heffects.sink]
  exact Effect.sink_performAll _ m

theorem flushes_run (p : Program) (config : Config) (fuel : Nat) (m : Machine) :
    (p.run config fuel m).machine.sink.flushes = m.sink.flushes + 1 := by
  have hcontinues := p.body_continues config fuel { m with steps := 0 }
  rw [run_eq_flushed, Ending.machine_flushed]
  exact congrArg (· + 1) hcontinues.flushes

/-- But for its outcome, a run is the one whose flush is accepted. -/
theorem run_of_flushed {p : Program} {config : Config} {fuel : Nat} {m m' : Machine}
    {own : Outcome} (h : p.run config fuel (m.flushedBy fun _ _ => none) = own.ending m') :
    p.run config fuel m =
      (own.afterFlush (m.sink.device.onFlush m'.sink.lines m.sink.flushes)).ending
        (m'.flushedBy m.sink.device.onFlush) := by
  have hcommutes := (p.actions_commute config m.sink.device.onFlush).body p config.forLoop fuel
    { m.flushedBy fun _ _ => none with steps := 0 }
  have hcontinues := p.body_continues config fuel { m.flushedBy fun _ _ => none with steps := 0 }
  rw [run_eq_flushed] at h ⊢
  obtain ⟨o, m₁, hbody⟩ := Ending.exists_eq_ending_of_flushed h
  rw [hbody, Outcome.machine_ending] at hcontinues
  rw [hbody, Outcome.onMachine_ending] at hcommutes
  rw [hbody, Outcome.flushed_ending_of_alwaysFlushes (hcontinues.alwaysFlushes fun _ _ => rfl)] at h
  obtain ⟨rfl, rfl⟩ := Outcome.ending_inj.1 h
  refine (congrArg Ending.flushed hcommutes).trans ?_
  rw [Outcome.flushed_ending]
  exact congrArg (fun flushes => (o.afterFlush (m.sink.device.onFlush _ flushes)).ending _)
    hcontinues.flushes

end Program

/-! ## Whole runs -/

namespace Program

variable {p : Program} {config : Config} {fuel : Nat} {m m' : Machine} {o : Outcome} {sink : Sink}
  {room : Nat}

theorem lines_of_run (hdevice : m.sink.device = .accepting)
    (hrun : p.run config fuel m = o.ending m') :
    m'.sink.lines.toList =
      m.sink.lines.toList ++ Effect.linesOf (p.recordedRun config fuel m).effects := by
  have hlines := (p.effects_recordedRun config fuel m).2
  rw [hrun, Outcome.machine_ending] at hlines
  rw [hlines]
  exact Effect.lines_performAll (Sink.admits_of_accepting hdevice _)

/-- What is recorded of a run before its flush, on a sink that accepts everything and on one with
room for so many lines. -/
theorem exists_curtailed (p : Program) (config : Config) (fuel : Nat)
    (hdevice : m.sink.device = .accepting) (hroom : sink.HasRoom room) :
    ∃ r r' : Recorded Unit, r.Curtailed room r' ∧ sink.Continues r'.ending.machine.sink ∧
      p.recordedRun config fuel m = ⟨r.ending.flushed, r.effects⟩ ∧
      p.recordedRun config fuel { m with sink } = ⟨r'.ending.flushed, r'.effects⟩ := by
  have hbeside : Machine.Beside room { m with steps := 0 } { m with steps := 0, sink } :=
    ⟨rfl, rfl, hdevice, hroom⟩
  refine ⟨_, _, ((p.recordings_curtail config).body p config.forLoop fuel).curtailed hbeside, ?_,
    rfl, rfl⟩
  rw [((p.recordings_faithful config).body p config.forLoop fuel).ending]
  exact p.body_continues config fuel { m with steps := 0, sink }

/-- A run that finds room for all its lines is the same as without a bound. -/
theorem run_of_enough_room (hdevice : m.sink.device = .accepting)
    (hrun : p.run config fuel m = o.ending m') (hroom : sink.HasRoom room)
    (henough : (Effect.linesOf (p.recordedRun config fuel m).effects).length ≤ room)
    (hflushes : sink.device.AlwaysFlushes) :
    ∃ m₁, p.run config fuel { m with sink } = o.ending m₁ ∧ m₁.symbols = m'.symbols ∧
      m₁.steps = m'.steps ∧ m₁.sink.lines.toList =
        sink.lines.toList ++ Effect.linesOf (p.recordedRun config fuel m).effects := by
  obtain ⟨r, r', hcurtailed, hcontinues, hrecorded, hrecorded'⟩ :=
    exists_curtailed p config fuel hdevice hroom
  have hending : r.ending.flushed = o.ending m' := by rw [← hrun, ← ending_recordedRun, hrecorded]
  have hlines := (p.effects_recordedRun config fuel { m with sink }).2
  rw [← ending_recordedRun, hrecorded'] at hlines ⊢
  rw [hrecorded] at henough ⊢
  cases hcurtailed with
  | refused hfull hsteps =>
      rw [Effect.linesOf_append, Effect.linesOf, List.length_append, List.length_cons] at henough
      omega
  | @kept ending m₁ effects rest hleft hbeside =>
      obtain ⟨o₁, m₂, rfl⟩ := Ending.exists_eq_ending_of_flushed hending
      rw [Outcome.machine_ending] at hbeside
      rw [Outcome.onMachine_ending, Outcome.machine_ending] at hcontinues
      have haccepting : m₂.sink.device.AlwaysFlushes := fun _ _ => by rw [hbeside.accepting]; rfl
      have hflushes' := hcontinues.alwaysFlushes hflushes
      rw [Outcome.flushed_ending_of_alwaysFlushes haccepting] at hending
      obtain ⟨rfl, rfl⟩ := Outcome.ending_inj.1 hending
      simp only [Outcome.onMachine_ending,
        Outcome.flushed_ending_of_alwaysFlushes hflushes'] at hlines ⊢
      refine ⟨_, rfl, hbeside.symbols, hbeside.steps, ?_⟩
      rw [Outcome.machine_ending] at hlines
      rw [hlines]
      exact Effect.lines_performAll (hroom.admits.mono henough)

/-- A run that finds no room for some line ends at the first such line. -/
theorem run_of_full_room (hdevice : m.sink.device = .accepting)
    (hrun : p.run config fuel m = o.ending m') (hroom : sink.HasRoom room)
    (hfull : room < (Effect.linesOf (p.recordedRun config fuel m).effects).length) :
    ∃ cause m₁ before value after,
      p.run config fuel { m with sink } = Outcome.ending (.failed (.output cause)) m₁ ∧
      m₁.steps ≤ m'.steps ∧
      m₁.sink.lines.toList = sink.lines.toList ++
        (Effect.linesOf (p.recordedRun config fuel m).effects).take room ∧
      (p.recordedRun config fuel m).effects = before ++ .printed value :: after ∧
      (p.recordedRun config fuel { m with sink }).effects = before ++ [.printed value] ∧
      (Effect.linesOf before).length = room ∧
      m₁.symbols = (Effect.performAll before m).symbols := by
  obtain ⟨r, r', hcurtailed, -, hrecorded, hrecorded'⟩ :=
    exists_curtailed p config fuel hdevice hroom
  have hending : r.ending.flushed = o.ending m' := by rw [← hrun, ← ending_recordedRun, hrecorded]
  have hafter := p.effects_recordedRun config fuel { m with sink }
  rw [← ending_recordedRun, hrecorded'] at hafter ⊢
  rw [hrecorded] at hfull ⊢
  cases hcurtailed with
  | kept hleft hbeside =>
      dsimp only at hfull
      omega
  | @refused ending before value after cause m₁ hlast hsteps =>
      obtain ⟨hsymbols, hlines⟩ := hafter
      dsimp only at hsymbols hlines ⊢
      refine ⟨cause, _, before, value, after, rfl, ?_, ?_, rfl, rfl, hlast, ?_⟩
      · have hmachine := congrArg Ending.machine hending
        rw [Ending.machine_flushed, Outcome.machine_ending] at hmachine
        rw [← hmachine]
        exact hsteps
      · rw [Effect.linesOf_append, ← hlast, List.take_left]
        exact hlines ▸ Effect.lines_performAll_concat (m := { m with sink }) (hlast ▸ hroom) value
      · refine hsymbols.trans ?_
        rw [Effect.performAll_append]
        refine (Effect.symbols_print value _).trans (Effect.symbols_performAll ?_ before)
        rfl

/-- A run that ends on a sink which accepts everything is compared with the runs on other sinks. If
there is room for all its lines, the run is the same. If not, it fails for its output, with as many
of the lines as there is room for and in no more steps, and its effects are those up to the first
line beyond the room. Whatever the sink, a run flushes once, and a refused flush changes nothing but
the outcome of a run that has not failed by itself. -/
theorem run_curtailed (p : Program) (config : Config) {fuel : Nat} {m m' : Machine} {o : Outcome}
    (hdevice : m.sink.device = .accepting) (hrun : p.run config fuel m = o.ending m') :
    ∃ printed, m'.sink.lines.toList = m.sink.lines.toList ++ printed ∧
      (∀ (sink : Sink) (room : Nat), sink.HasRoom room →
        (printed.length ≤ room → sink.device.AlwaysFlushes → ∃ m₁,
          p.run config fuel { m with sink } = o.ending m₁ ∧ m₁.symbols = m'.symbols ∧
          m₁.steps = m'.steps ∧ m₁.sink.lines.toList = sink.lines.toList ++ printed) ∧
        (room < printed.length → ∃ cause m₁ before value after,
          p.run config fuel { m with sink } = Outcome.ending (.failed (.output cause)) m₁ ∧
          m₁.steps ≤ m'.steps ∧
          m₁.sink.lines.toList = sink.lines.toList ++ printed.take room ∧
          (p.recordedRun config fuel m).effects = before ++ .printed value :: after ∧
          (p.recordedRun config fuel { m with sink }).effects = before ++ [.printed value] ∧
          (Effect.linesOf before).length = room ∧
          m₁.symbols = (Effect.performAll before m).symbols)) ∧
      ∀ sink : Sink,
        (p.run config fuel { m with sink }).machine.sink.flushes = sink.flushes + 1 ∧
        ∀ (own : Outcome) (m₁ : Machine),
          p.run config fuel { m with sink := sink.flushedBy fun _ _ => none } = own.ending m₁ →
          p.run config fuel { m with sink } =
            (own.afterFlush (sink.device.onFlush m₁.sink.lines sink.flushes)).ending
              (m₁.flushedBy sink.device.onFlush) := by
  refine ⟨_, lines_of_run hdevice hrun, fun sink room hroom => ⟨?_, ?_⟩, fun sink => ⟨?_, ?_⟩⟩
  · exact fun henough hflushes => run_of_enough_room hdevice hrun hroom henough hflushes
  · exact fun hfull => run_of_full_room hdevice hrun hroom hfull
  · exact p.flushes_run config fuel { m with sink }
  · exact fun own m₁ haccepted => run_of_flushed (m := { m with sink }) haccepted

/-- `x = 2 ; iken ( x ) { x = x - 1 ; yazdır ( x ) ; }` prints two lines. Room for three is enough
even after a line that was there before; with room for one the run ends at its second line, and a
device that does not flush fails a run that has printed everything. -/
theorem run_curtailed_countdown :
    let p := ofTrees [.assign ⟨"x", .number 2⟩, .whileDo (.name "x")
      [.assign ⟨"x", .binary .minus (.name "x") (.number 1)⟩, .print (.name "x")]]
    let line (value : Int64) := Action.outputLine value
    let m : Machine := { sink := { device := .accepting } }
    let roomy : Sink := { device := .limited (some 3) false, lines := #[line 2] }
    let tight : Sink := { device := .limited (some 1) true }
    let closed : Sink := { device := .limited none true }
    ∃ m', p.run {} 16 m = Outcome.done.ending m' ∧
      (∃ m₁, p.run {} 16 { m with sink := roomy } = Outcome.done.ending m₁ ∧ m₁.steps = m'.steps ∧
        m₁.sink.lines.toList = [line 2, line 1, line 0]) ∧
      (∃ cause m₁,
        p.run {} 16 { m with sink := tight } = Outcome.ending (.failed (.output cause)) m₁ ∧
        m₁.steps ≤ m'.steps ∧ m₁.sink.lines.toList = [line 1]) ∧
      (p.run {} 16 { m with sink := closed }).machine.sink.flushes = 1 ∧
      ∃ m₁, p.run {} 16 { m with sink := closed } =
        Outcome.ending (.failed (.output "sink closed")) m₁ := by
  intro p line m roomy tight closed
  have hobserved : (p.run {} 16 m).isFinished ∧
      (p.run {} 16 m).machine.sink.lines.toList = [line 1, line 0] := by
    decide +kernel
  have hrun := Ending.eq_of_isFinished hobserved.1
  obtain ⟨printed, hprinted, hroom, hflush⟩ := run_curtailed p {} (m := m) rfl hrun
  rw [hobserved.2] at hprinted
  obtain rfl : [line 1, line 0] = printed := hprinted
  refine ⟨_, hrun, ?_, ?_, (hflush closed).1, ?_⟩
  · obtain ⟨m₁, hsame, -, hsteps, hlines⟩ := (hroom roomy 2 (Sink.hasRoom_limited rfl rfl)).1
      (by decide) fun _ _ => rfl
    exact ⟨m₁, hsame, hsteps, hlines⟩
  · obtain ⟨cause, m₁, -, -, -, hcut, hsteps, hlines, -⟩ :=
      (hroom tight 1 (Sink.hasRoom_limited rfl rfl)).2 (by decide)
    exact ⟨cause, m₁, hcut, hsteps, hlines⟩
  · exact ⟨_, (hflush closed).2 .done _ hrun⟩

end Program

end Betik
