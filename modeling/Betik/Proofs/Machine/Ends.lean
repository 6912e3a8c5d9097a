import Betik.Machine.Report
import Betik.Proofs.Machine.Limit

/-!
# Runs that end

The run of a program or of a text ends if it does so with enough fuel; more fuel then changes
nothing. A text that cannot be read ends at once. A program ends as the rules say of its trees, and
under a step limit every text ends.
-/

namespace Betik

namespace Program

variable {p : Program} {config : Config} {trees : List Stmt} {m m' m₁ : Machine} {o o₁ : Outcome}

/-- With enough fuel, a run of the program ends with the outcome `o` and leaves `m'`. -/
def Ends (p : Program) (config : Config) (m : Machine) (o : Outcome) (m' : Machine) : Prop :=
  ∃ fuel, p.run config fuel m = o.ending m'

theorem Ends.unique (h : p.Ends config m o m') (h₁ : p.Ends config m o₁ m₁) :
    o = o₁ ∧ m' = m₁ := by
  obtain ⟨fuel, hrun⟩ := h
  obtain ⟨fuel₁, hrun₁⟩ := h₁
  have hmore := (run_refines (Nat.le_max_left fuel fuel₁)).eq_of_ne hrun (o.ending_ne_outOfFuel m')
  have hmore₁ :=
    (run_refines (Nat.le_max_right fuel fuel₁)).eq_of_ne hrun₁ (o₁.ending_ne_outOfFuel m₁)
  exact Outcome.ending_inj.1 (hmore.symm.trans hmore₁)

theorem ends_ofTrees_iff :
    (ofTrees trees).Ends config m o m' ↔ Stmt.Completes config trees m o m' :=
  exists_run_eq_iff_completes (heldAllAt_ofTrees trees)

end Program

/-- How an outcome is reported. -/
def Outcome.result : Outcome → Except Halt Unit
  | done => .ok ()
  | failed error => .error (.fault error)

theorem Outcome.result_ne_outOfFuel (o : Outcome) : o.result ≠ .error .outOfFuel := by
  cases o <;> simp [result]

theorem Outcome.result_inj {o o' : Outcome} : o.result = o'.result ↔ o = o' := by
  cases o <;> cases o' <;> simp [result]

namespace Machine

variable {m m' : Machine} {config : Config} {text : String} {report : Report}

/-- With enough fuel, running a text ends, leaves this machine and gives this report. -/
def Ends (m : Machine) (config : Config) (text : String) (m' : Machine) (report : Report) : Prop :=
  report.result ≠ .error .outOfFuel ∧
    ∃ least, ∀ fuel, least ≤ fuel → m.runText config fuel text = (m', report)

theorem Ends.unique {m₁ : Machine} {report₁ : Report} (h : m.Ends config text m' report)
    (h₁ : m.Ends config text m₁ report₁) : m' = m₁ ∧ report = report₁ := by
  obtain ⟨-, least, hrun⟩ := h
  obtain ⟨-, least₁, hrun₁⟩ := h₁
  have hleft := hrun (max least least₁) (Nat.le_max_left ..)
  have hright := hrun₁ (max least least₁) (Nat.le_max_right ..)
  exact Prod.mk.inj (hleft.symm.trans hright)

theorem run_of_ending {p : Program} {fuel : Nat} {o : Outcome}
    (h : p.run config fuel m = o.ending m') :
    m.run config fuel p = (m', run.report m o.result m') := by
  rw [run, h]
  cases o <;> rfl

theorem runText_of_ok {p : Program} (hp : Program.ofText text = .ok p) (fuel : Nat) :
    m.runText config fuel text = m.run config fuel p := by
  rw [runText, hp, attempt]

/-- A run that ends with some fuel ends alike with any more of it. -/
theorem attempt_mono {program : Except Error Program} {fuel fuel' : Nat} (hle : fuel ≤ fuel')
    (h : m.attempt config fuel program = (m', report)) (hends : report.result ≠ .error .outOfFuel) :
    m.attempt config fuel' program = (m', report) := by
  cases program with
  | error e => exact h
  | ok p =>
      rw [attempt] at h ⊢
      rcases (Program.run_refines hle : (p.run config fuel).Refines _) m with ⟨m₁, hout⟩ | heq
      · rw [run, hout] at h
        cases h
        exact absurd rfl hends
      · rw [run, heq]
        exact h

theorem runText_mono {fuel fuel' : Nat} (hle : fuel ≤ fuel')
    (h : m.runText config fuel text = (m', report)) (hends : report.result ≠ .error .outOfFuel) :
    m.runText config fuel' text = (m', report) :=
  attempt_mono hle h hends

theorem ends_runText {fuel : Nat} {result : Except Halt Unit}
    (h : (m.runText config fuel text).2.result = result) (hends : result ≠ .error .outOfFuel) :
    m.Ends config text (m.runText config fuel text).1 (m.runText config fuel text).2 := by
  rw [← h] at hends
  exact ⟨hends, fuel, fun _ hle => runText_mono hle rfl hends⟩

/-- A text ends as the rules say of its trees. -/
theorem ends_iff_completes {trees : List Stmt}
    (htext : Program.ofText text = .ok (.ofTrees trees)) :
    m.Ends config text m' report ↔
      ∃ o, Stmt.Completes config trees m o m' ∧ report = run.report m o.result m' := by
  have hbody := Program.heldAllAt_ofTrees trees
  constructor
  · rintro ⟨hends, least, hleast⟩
    have hrun := hleast least (Nat.le_refl _)
    rw [runText_of_ok htext] at hrun
    rcases Program.run_follows hbody least m with ⟨m₁, hout⟩ | ⟨o, m₁, hending, hcompletes⟩
    · rw [run, hout] at hrun
      cases hrun
      exact absurd rfl hends
    · rw [run_of_ending hending] at hrun
      cases hrun
      exact ⟨o, hcompletes, rfl⟩
  · rintro ⟨o, hcompletes, rfl⟩
    obtain ⟨least, hreaches⟩ := Program.reaches_of_completes hbody hcompletes
    refine ⟨o.result_ne_outOfFuel, least, fun fuel hle => ?_⟩
    rw [runText_of_ok htext, run_of_ending (hreaches fuel hle)]

/-- Under a step limit no run is short of fuel that has some more than the limit. -/
theorem attempt_ne_outOfFuel {limit : UInt64} (hlimit : config.stepLimit = some limit) (m : Machine)
    (program : Except Error Program) :
    (m.attempt config (limit.toNat + 2) program).2.result ≠ .error .outOfFuel := by
  cases program with
  | error e => simp [attempt]
  | ok p =>
      rw [attempt, run]
      cases hrun : p.run config (limit.toNat + 2) m with
      | finished value m' => simp [run.report]
      | halted reason m' =>
          rintro ⟨⟩
          exact Program.run_ne_outOfFuel hlimit (Nat.lt_succ_self _) m m' hrun

/-- Under a step limit every text ends. -/
theorem exists_ends {limit : UInt64} (hlimit : config.stepLimit = some limit) (m : Machine)
    (text : String) : ∃ m' report, m.Ends config text m' report :=
  ⟨_, _, ends_runText rfl (attempt_ne_outOfFuel hlimit m _)⟩

end Machine

end Betik
