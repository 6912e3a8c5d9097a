import Betik.Proofs.Machine.Recording

/-!
# Runs under a step limit

Every statement and every round of a loop counts a step before it does anything. So under a limit no
run goes on forever: the fuel that a run uses up, statement inside statement and round after round,
is paid for in steps. For the same reason there are no more assignments and prints than steps within
the limit.
-/

namespace Betik

/-! ## Steps and effects -/

/-- How an action under a limit may end that started with `spent` steps and effects together. -/
def Ending.Affords {α : Type} (limit spent : Nat) : Ending α → Prop
  | finished _ m => spent ≤ m.steps ∧ m.steps ≤ limit
  | halted _ m => spent ≤ limit ∧ m.steps ≤ limit + 1

namespace Ending.Affords

variable {α : Type} {limit spent : Nat} {ending : Ending α}

theorem spent_le (h : ending.Affords limit spent) : spent ≤ limit := by
  cases ending with
  | finished value m => exact Nat.le_trans h.1 h.2
  | halted reason m => exact h.1

theorem steps_le (h : ending.Affords limit spent) : ending.machine.steps ≤ limit + 1 := by
  cases ending with
  | finished value m => exact Nat.le_succ_of_le h.2
  | halted reason m => exact h.2

end Ending.Affords

namespace Recording

variable {α β : Type} {limit : Nat}

/-- Each effect has a step of its own, and no step but the last of a run is beyond the limit. -/
def Within (limit : Nat) (x : Recording α) : Prop :=
  ∀ m, m.steps ≤ limit → (x m).ending.Affords limit (m.steps + (x m).effects.length)

namespace Within

theorem bind {x : Recording α} {f : α → Recording β} (hx : x.Within limit)
    (hf : ∀ a, (f a).Within limit) : (x >>= f).Within limit := by
  intro m hm
  have hfirst := hx m hm
  cases hending : (x m).ending with
  | halted reason m' =>
      rw [hending] at hfirst
      rw [bind_of_halted hending]
      exact hfirst
  | finished a m' =>
      rw [hending] at hfirst
      obtain ⟨hspent, hm'⟩ := hfirst
      have hsecond := hf a m' hm'
      rw [bind_of_finished hending, List.length_append]
      cases hending' : (f a m').ending with
      | finished b m'' =>
          rw [hending'] at hsecond
          obtain ⟨hspent', hm''⟩ := hsecond
          exact ⟨by omega, hm''⟩
      | halted reason m'' =>
          rw [hending'] at hsecond
          obtain ⟨hspent', hm''⟩ := hsecond
          exact ⟨by omega, hm''⟩

/-- What takes no step and has no effect may stand anywhere. -/
theorem silent {x : Action α} (h : ∀ m, (x m).machine = m) : (silent x).Within limit := by
  intro m hm
  have hmachine := h m
  rw [Recording.silent]
  cases hx : x m with
  | finished a m' =>
      obtain rfl : m' = m := by rw [← hmachine, hx]; rfl
      exact ⟨Nat.le_refl _, hm⟩
  | halted reason m' =>
      obtain rfl : m' = m := by rw [← hmachine, hx]; rfl
      exact ⟨hm, Nat.le_succ_of_le hm⟩

/-- A step pays for what follows if that is one effect at most and takes no step itself. -/
theorem tick_bind {config : Config} {limit : UInt64} (hlimit : config.stepLimit = some limit)
    {x : Recording α} (hsteps : ∀ m, (x m).ending.machine.steps = m.steps)
    (heffects : ∀ m, (x m).effects.length ≤ 1) :
    (Recording.silent (Action.tick config) >>= fun _ => x).Within limit.toNat := by
  intro m hm
  have hcounted : m.counted.steps = m.steps + 1 := rfl
  rcases config.allows_or_exceeds m.counted.steps with hallows | ⟨limit', hexceeds⟩
  · have hle := hallows limit hlimit
    have hlast := hsteps m.counted
    have hfew := heffects m.counted
    rw [bind_of_finished (Action.tick_of_allows hallows), Recording.silent, List.nil_append]
    dsimp only
    cases hending : (x m.counted).ending with
    | finished a m' =>
        rw [hending, Ending.machine] at hlast
        exact ⟨by omega, by omega⟩
    | halted reason m' =>
        rw [hending, Ending.machine] at hlast
        exact ⟨by omega, by omega⟩
  · rw [bind_of_halted (Action.tick_of_exceeds hexceeds)]
    exact ⟨hm, by omega⟩

theorem tick {config : Config} {limit : UInt64} (hlimit : config.stepLimit = some limit) :
    (Recording.silent (Action.tick config)).Within limit.toNat := by
  intro m hm
  rw [Recording.silent]
  rcases config.allows_or_exceeds m.counted.steps with hallows | ⟨limit', hexceeds⟩
  · rw [Action.tick_of_allows hallows]
    exact ⟨Nat.le_succ _, hallows limit hlimit⟩
  · rw [Action.tick_of_exceeds hexceeds]
    exact ⟨hm, Nat.succ_le_succ hm⟩

theorem elementary {config : Config} {limit : UInt64} (hlimit : config.stepLimit = some limit)
    (p : Program) (effect : Int64 → Effect) (value : ExprId) :
    (elementary p config effect value).Within limit.toNat := by
  have htail : ∀ m, let recorded := (Recording.silent (p.value value) >>=
      fun result => performed (effect result)) m
      recorded.ending.machine.steps = m.steps ∧ recorded.effects.length ≤ 1 := by
    intro m
    have hmachine := p.machine_value value m
    cases hvalue : p.value value m with
    | finished result m' =>
        obtain rfl : m' = m := by rw [← hmachine, hvalue]; rfl
        rw [bind_of_finished hvalue]
        exact ⟨(effect result).steps_perform m', Nat.le_refl _⟩
    | halted reason m' =>
        obtain rfl : m' = m := by rw [← hmachine, hvalue]; rfl
        rw [bind_of_halted hvalue]
        exact ⟨rfl, Nat.zero_le _⟩
  exact tick_bind hlimit (fun m => (htail m).1) fun m => (htail m).2

end Within

end Recording

namespace Program

open Recording

theorem recordings_within (p : Program) {config : Config} {limit : UInt64}
    (hlimit : config.stepLimit = some limit) :
    Interpretation.Related (fun _ _ x => Within limit.toNat x) (p.recordings config)
      (p.recordings config) where
  nothing := Within.silent (x := pure ()) fun _ => rfl
  bind := .bind
  tick := .tick hlimit
  holds condition := .silent (machine_holds condition)
  assign name := .elementary hlimit p (Effect.assigned name)
  print := .elementary hlimit p Effect.printed
  stop _ := .silent fun _ => rfl

/-- A run takes at most one step beyond the limit and has no effect for that one. -/
theorem recordedRun_within (p : Program) {config : Config} {limit : UInt64}
    (hlimit : config.stepLimit = some limit) (fuel : Nat) (m : Machine) :
    (p.recordedRun config fuel m).ending.machine.steps ≤ limit.toNat + 1 ∧
      (p.recordedRun config fuel m).effects.length ≤ limit.toNat := by
  have hwithin := (p.recordings_within hlimit).body p config.forLoop fuel { m with steps := 0 }
    (Nat.zero_le _)
  have hspent := hwithin.spent_le
  rw [Nat.zero_add] at hspent
  rw [recordedRun, Ending.machine_flushed]
  exact ⟨hwithin.steps_le, hspent⟩

end Program

/-! ## Fuel -/

namespace Program

variable {p : Program} {symbols : SymbolTable}

/-- Expressions need no fuel. -/
theorem evaluate_ne_outOfFuel (id : ExprId) : p.evaluate symbols id ≠ .error .outOfFuel := by
  intro h
  cases evaluate_unevaluable h

end Program

namespace Action

variable {α β : Type}

/-- No step is taken back, and the fuel runs out only after `least` steps. -/
structure Lasts (least : Nat) (x : Action α) : Prop where
  steps : ∀ m : Machine, m.steps ≤ (x m).machine.steps
  outOfFuel : ∀ {m m'}, x m = .halted .outOfFuel m' → m.steps + least ≤ m'.steps

namespace Lasts

theorem mono {x : Action α} {least less : Nat} (hle : less ≤ least) (h : x.Lasts least) :
    x.Lasts less where
  steps := h.steps
  outOfFuel hout := by
    have hlasts := h.outOfFuel hout
    omega

theorem bind {x : Action α} {f : α → Action β} {least : Nat} (hx : x.Lasts least)
    (hf : ∀ a, (f a).Lasts least) : (x >>= f).Lasts least where
  steps m := by
    have hfirst := hx.steps m
    rw [bind_apply]
    cases hxm : x m with
    | finished a m₁ =>
        rw [hxm] at hfirst
        exact Nat.le_trans hfirst ((hf a).steps m₁)
    | halted reason m₁ =>
        rw [hxm] at hfirst
        exact hfirst
  outOfFuel {m m'} hout := by
    have hfirst := hx.steps m
    rw [bind_apply] at hout
    cases hxm : x m with
    | finished a m₁ =>
        rw [hxm] at hfirst hout
        have hlasts := (hf a).outOfFuel hout
        exact Nat.le_trans (Nat.add_le_add_right hfirst _) hlasts
    | halted reason m₁ =>
        rw [hxm] at hout
        cases hout
        exact hx.outOfFuel hxm

theorem of_ne {x : Action α} (hsteps : ∀ m : Machine, m.steps ≤ (x m).machine.steps)
    (hne : ∀ m m', x m ≠ .halted .outOfFuel m') (least : Nat) : x.Lasts least where
  steps := hsteps
  outOfFuel hout := absurd hout (hne _ _)

theorem tick (config : Config) (least : Nat) : (Action.tick config).Lasts least := by
  refine of_ne (fun m => ?_) (fun m m' => ?_) least
  · rw [machine_tick]
    exact Nat.le_succ _
  · rcases config.allows_or_exceeds m.counted.steps with hallows | ⟨limit, hexceeds⟩
    · simp [tick_of_allows hallows]
    · simp [tick_of_exceeds hexceeds]

/-- With a step before it, an action lasts one step longer. -/
theorem tick_bind {config : Config} {f : Unit → Action β} {least : Nat} (hf : (f ()).Lasts least) :
    (Action.tick config >>= f).Lasts (least + 1) where
  steps := ((tick config least).bind fun _ => hf).steps
  outOfFuel {m m'} hout := by
    rcases config.allows_or_exceeds m.counted.steps with hallows | ⟨limit, hexceeds⟩
    · rw [bind_of_finished (tick_of_allows hallows)] at hout
      have hlasts := hf.outOfFuel hout
      have hcounted : m.counted.steps = m.steps + 1 := rfl
      omega
    · rw [bind_of_halted (tick_of_exceeds hexceeds)] at hout
      cases hout

end Lasts

end Action

namespace Program

open Betik.Action Betik.Interpretation

variable {p : Program} {config : Config} {mode : ForLoop}

theorem value_lasts (id : ExprId) (least : Nat) : (p.value id).Lasts least := by
  refine .of_ne (fun m => ?_) (fun m m' => ?_) least
  · exact Nat.le_of_eq (congrArg Machine.steps (p.machine_value id m)).symm
  · rw [value]
    cases heval : p.evaluate m.symbols id with
    | ok v => simp
    | error reason =>
        rintro ⟨⟩
        exact evaluate_ne_outOfFuel id heval

theorem holds_lasts (id : ExprId) (least : Nat) : (p.holds id).Lasts least :=
  (value_lasts id least).bind fun _ => .of_ne (fun _ => Nat.le_refl _) (by simp) least

theorem actions_assign_lasts (name : String) (value : ExprId) (least : Nat) :
    ((p.actions config).assign name value).Lasts least :=
  (Lasts.tick config least).bind fun _ => (value_lasts value least).bind fun _ =>
    .of_ne (fun _ => Nat.le_refl _) (by simp [Action.assign]) least

theorem actions_print_lasts (value : ExprId) (least : Nat) :
    ((p.actions config).print value).Lasts least := by
  refine (Lasts.tick config least).bind fun _ => (value_lasts value least).bind fun result => ?_
  refine .of_ne (fun m => Nat.le_of_eq (steps_print result m).symm) (fun m m' => ?_) least
  rw [Action.print]
  split <;> simp

theorem stop_lasts (least : Nat) : ((p.actions config).stop .badReference).Lasts least :=
  .of_ne (fun _ => Nat.le_refl _) (by simp [actions, halt]) least

theorem stop_outOfFuel_lasts : ((p.actions config).stop .outOfFuel).Lasts 0 where
  steps _ := Nat.le_refl _
  outOfFuel := by
    rintro m _ ⟨⟩
    exact Nat.le_refl _

theorem onlyIf_lasts {x : Action Unit} {least : Nat} (hx : x.Lasts least) (condition : Bool) :
    (Interpretation.onlyIf condition x).Lasts least := by
  cases condition with
  | false => exact .of_ne (fun _ => Nat.le_refl _) (by simp [Interpretation.onlyIf]) least
  | true => exact hx

theorem inOrder_lasts {x : StmtId → Action Unit} {least : Nat} (hx : ∀ id, (x id).Lasts least)
    (ids : List StmtId) : (inOrder x ids).Lasts least := by
  induction ids with
  | nil => exact .of_ne (fun _ => Nat.le_refl _) (by simp [inOrder]) least
  | cons id rest ih => exact (hx id).bind fun _ => ih

/-- A round is paid for with a step of its own. -/
theorem round_bind_lasts {x : StmtId → Action Unit} {y : Action Unit} {least : Nat}
    (hx : ∀ id, (x id).Lasts least) (hy : y.Lasts least) (body : List StmtId) :
    ((p.actions config).round x body >>= fun _ => y).Lasts (least + 1) := by
  rw [Interpretation.round, bind_assoc]
  exact .tick_bind ((inOrder_lasts hx body).bind fun _ => hy)

theorem loop_lasts {x : StmtId → Action Unit} {fuel count : Nat} (hx : ∀ id, (x id).Lasts fuel)
    (hle : count ≤ fuel) (condition : ExprId) (body : List StmtId) :
    ((p.actions config).loop condition ((p.actions config).round x body) count).Lasts count := by
  induction count with
  | zero => exact stop_outOfFuel_lasts
  | succ count ih =>
      refine (holds_lasts condition _).bind fun again => onlyIf_lasts ?_ again
      exact round_bind_lasts (fun id => (hx id).mono (by omega)) (ih (by omega)) body

/-- A statement runs out of fuel only after as many steps as there was fuel. -/
theorem execute_lasts (fuel : Nat) (id : StmtId) :
    ((p.actions config).execute p mode fuel id).Lasts fuel := by
  induction fuel generalizing id with
  | zero => exact stop_outOfFuel_lasts
  | succ fuel ih =>
      unfold Interpretation.execute
      split
      · exact .tick_bind (stop_lasts fuel)
      · exact actions_assign_lasts _ _ _
      · exact actions_print_lasts _ _
      · refine .tick_bind ((holds_lasts _ fuel).bind fun taken => ?_)
        exact inOrder_lasts ih _
      · refine .tick_bind ?_
        exact loop_lasts ih (Nat.le_refl fuel) _ _
      · refine .tick_bind ((ih _).bind fun _ => (holds_lasts _ fuel).bind fun running => ?_)
        refine (onlyIf_lasts (ih _) _).bind fun _ => onlyIf_lasts ?_ running
        exact (round_bind_lasts ih (loop_lasts ih (Nat.le_refl fuel) _ _) _).mono (Nat.le_succ fuel)

theorem run_ne_outOfFuel {limit : UInt64} (hlimit : config.stepLimit = some limit) {fuel : Nat}
    (hfuel : limit.toNat + 1 < fuel) (m m' : Machine) :
    p.run config fuel m ≠ .halted .outOfFuel m' := by
  intro hout
  have hsteps := (p.recordedRun_within hlimit fuel m).1
  rw [ending_recordedRun, hout] at hsteps
  rw [run_eq_flushed] at hout
  cases hbody : (p.actions config).body p config.forLoop fuel { m with steps := 0 } with
  | finished value m₁ =>
      rw [hbody, Ending.flushed] at hout
      split at hout <;> cases hout
  | halted reason m₁ =>
      rw [hbody] at hout
      cases hout
      have hlasts := (inOrder_lasts (execute_lasts fuel) p.body).outOfFuel hbody
      dsimp only [Ending.machine] at hsteps hlasts
      omega

/-- Under a step limit every program that was read from tokens ends, from every machine and in both
kinds of counting loop. The count of steps goes at most one beyond the limit, which still fits into
64 bits, however far the run has come; and there are no more assignments and prints than the limit
allows steps. -/
theorem run_ends_under_limit {tokens : List Token} {p : Program} (hp : ofTokens tokens = .ok p)
    (mode : ForLoop) {limit : UInt64} (hlimit : limit.toNat < UInt64.size - 1) (m : Machine) :
    let config : Config := { forLoop := mode, stepLimit := some limit }
    (∀ fuel, limit.toNat + 1 < fuel → ∃ o m', p.run config fuel m = Outcome.ending o m') ∧
    ∀ fuel, (p.run config fuel m).machine.steps ≤ limit.toNat + 1 ∧
      (p.run config fuel m).machine.steps < UInt64.size ∧
      ∃ effects, p.recordedRun config fuel m = ⟨p.run config fuel m, effects⟩ ∧
        effects.length ≤ limit.toNat ∧
        (p.run config fuel m).machine.symbols = (Effect.performAll effects m).symbols ∧
        (p.run config fuel m).machine.sink.lines = (Effect.performAll effects m).sink.lines := by
  intro config
  have hconfig : config.stepLimit = some limit := rfl
  constructor
  · intro fuel hfuel
    obtain ⟨trees, -, rfl⟩ := ofTokens_eq_ok_iff.1 hp
    rcases run_follows (heldAllAt_ofTrees trees) fuel m with ⟨m', hout⟩ | ⟨o, m', hending, -⟩
    · exact absurd hout (run_ne_outOfFuel hconfig hfuel m m')
    · exact ⟨o, m', hending⟩
  · intro fuel
    have hwithin := p.recordedRun_within hconfig fuel m
    have hending := p.ending_recordedRun config fuel m
    rw [hending] at hwithin
    have hsteps := hwithin.1
    refine ⟨hwithin.1, by omega, (p.recordedRun config fuel m).effects, ?_, hwithin.2,
      p.effects_recordedRun config fuel m⟩
    rw [← hending]

/-- `iken ( 1 ) { yazdır ( 7 ) ; }` has no end of its own, and ends under a limit of five. -/
theorem run_ends_under_limit_endless :
    let tokens : List Token := [⟨.keyword .whileWord, "iken"⟩, ⟨.symbol .openParen, "("⟩,
      ⟨.number, "1"⟩, ⟨.symbol .closeParen, ")"⟩, ⟨.symbol .openBrace, "\x7b"⟩,
      ⟨.keyword .printWord, "yazdır"⟩, ⟨.symbol .openParen, "("⟩, ⟨.number, "7"⟩,
      ⟨.symbol .closeParen, ")"⟩, ⟨.symbol .semicolon, ";"⟩, ⟨.symbol .closeBrace, "\x7d"⟩]
    let p := ofTrees [.whileDo (.number 1) [.print (.number 7)]]
    let m : Machine := { sink := { device := .accepting } }
    let config : Config := { stepLimit := some 5 }
    ofTokens tokens = .ok p ∧ (∃ o m', p.run config 7 m = Outcome.ending o m') ∧
      (p.run config 7 m).machine.steps = 6 ∧
      ∃ effects, p.recordedRun config 7 m = ⟨p.run config 7 m, effects⟩ ∧ effects.length ≤ 5 ∧
        effects = [.printed 7, .printed 7] := by
  intro tokens p m config
  have hp : ofTokens tokens = .ok p := by rfl
  have hlimit : (5 : UInt64).toNat < UInt64.size - 1 := by decide
  obtain ⟨hends, hbounds⟩ := run_ends_under_limit hp .conventional hlimit m
  obtain ⟨-, -, effects, hrecorded, hfew, -⟩ := hbounds 7
  refine ⟨hp, hends 7 (by decide), by decide +kernel, effects, hrecorded, hfew, ?_⟩
  have hlisted : (p.recordedRun config 7 m).effects = [.printed 7, .printed 7] := by
    decide +kernel
  rw [← hlisted, hrecorded]

end Program

end Betik
