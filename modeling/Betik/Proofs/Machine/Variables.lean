import Betik.Proofs.Machine.Recording

/-!
# Variables of a run

Only assignments change the variables, and a run performs no assignments but those of the program.
What a name has in the end is the value of its last assignment, or what it had before. Main
statement: a run keeps all variables, changes only targets of assignments, and has as many more
variables in the end as there are names that were given their first value.
-/

namespace Betik

/-! ## The names of a table -/

namespace SymbolTable

variable {t t' : SymbolTable} {x : String}

/-- The names that have values, in the order of their first assignments. -/
def names (t : SymbolTable) : List String :=
  t.entries.map Prod.fst

theorem length_names (t : SymbolTable) : t.names.length = t.size :=
  List.length_map _

theorem mem_names_iff : x ∈ t.names ↔ (t.get? x).isSome := by
  rw [get?, List.lookup_isSome_iff, names, List.mem_map]
  constructor
  · rintro ⟨entry, hmem, rfl⟩
    exact ⟨entry, hmem, beq_self_eq_true _⟩
  · rintro ⟨entry, hmem, heq⟩
    exact ⟨entry, hmem, (beq_iff_eq.1 heq).symm⟩

theorem names_prefix_assign (t : SymbolTable) (name : String) (value : Int64) :
    t.names <+: (t.assign name value).names := by
  unfold names assign
  rw [map_fst_overwrite]
  split
  · exact List.prefix_refl _
  · exact List.prefix_append _ _

/-- What a table has more than an earlier one are the names that had no value then. -/
theorem exists_new_names (h : t.names <+: t'.names) :
    ∃ new : List String, new.Nodup ∧
      (∀ x, x ∈ new ↔ t.get? x = none ∧ (t'.get? x).isSome) ∧
      t'.size = t.size + new.length := by
  obtain ⟨new, hnew⟩ := h
  have hnodup : (t.names ++ new).Nodup := hnew ▸ t'.nodup
  obtain ⟨-, hnodup, hdisjoint⟩ := List.nodup_append.1 hnodup
  refine ⟨new, hnodup, fun x => ?_, ?_⟩
  · rw [← mem_names_iff, ← hnew, List.mem_append, ← Option.not_isSome_iff_eq_none, ← mem_names_iff]
    constructor
    · intro hx
      exact ⟨fun hold => hdisjoint x hold x hx rfl, .inr hx⟩
    · rintro ⟨hold, hx⟩
      exact hx.resolve_left hold
  · rw [← length_names, ← hnew, List.length_append, length_names]

end SymbolTable

/-! ## Effects on variables -/

namespace Effect

/-- The value that a name is given last. -/
def lastValue? (x : String) : List Effect → Option Int64
  | [] => none
  | assigned name value :: rest =>
    (lastValue? x rest).or (if x = name then some value else none)
  | printed _ :: rest => lastValue? x rest

/-- After some effects a name has the value it was given last, or else the one it had. -/
theorem get?_performAll (effects : List Effect) (m : Machine) (x : String) :
    (performAll effects m).symbols.get? x =
      (lastValue? x effects).or (m.symbols.get? x) := by
  induction effects generalizing m with
  | nil => rfl
  | cons effect rest ih =>
      rw [performAll, ih]
      cases effect with
      | assigned name value =>
          have hassign := m.symbols.get?_assign name value x
          rw [lastValue?, Option.or_assoc]
          apply congrArg
          refine hassign.trans ?_
          split <;> rfl
      | printed value => rw [lastValue?, perform, symbols_print]

theorem names_prefix_performAll (effects : List Effect) (m : Machine) :
    m.symbols.names <+: (performAll effects m).symbols.names := by
  induction effects generalizing m with
  | nil => exact List.prefix_refl _
  | cons effect rest ih =>
      refine List.IsPrefix.trans ?_ (ih _)
      cases effect with
      | assigned name value => exact m.symbols.names_prefix_assign name value
      | printed value => simp only [perform, symbols_print, List.prefix_refl]

theorem exists_mem_of_lastValue? {effects : List Effect} {x : String} {v : Int64}
    (h : lastValue? x effects = some v) : assigned x v ∈ effects := by
  induction effects with
  | nil => cases h
  | cons effect rest ih =>
      cases effect with
      | assigned name value =>
          rw [lastValue?, Option.or_eq_some_iff] at h
          rcases h with hrest | ⟨-, hfirst⟩
          · exact List.mem_cons_of_mem _ (ih hrest)
          · split at hfirst
            · next hx =>
              cases hfirst
              rw [hx]
              exact List.mem_cons_self
            · cases hfirst
      | printed value => exact List.mem_cons_of_mem _ (ih h)

end Effect

/-! ## Effects of a run -/

namespace Recording

variable {α β : Type} {p : Program}

/-- All assignments among the effects are to targets of the program. -/
def AssignsTargets (p : Program) (x : Recording α) : Prop :=
  ∀ m name value, .assigned name value ∈ (x m).effects → name ∈ p.targets

namespace AssignsTargets

theorem silent (x : Action α) : (silent x).AssignsTargets p := by
  intro m name value hmem
  cases hmem

theorem performed {effect : Effect}
    (h : ∀ name value, effect = .assigned name value → name ∈ p.targets) :
    (performed effect).AssignsTargets p := by
  intro m name value hmem
  exact h name value (List.mem_singleton.1 hmem).symm

theorem bind {x : Recording α} {f : α → Recording β} (hx : x.AssignsTargets p)
    (hf : ∀ a, (f a).AssignsTargets p) : (x >>= f).AssignsTargets p := by
  intro m name value hmem
  cases hending : (x m).ending with
  | finished a m' =>
      rw [bind_of_finished hending] at hmem
      rcases List.mem_append.1 hmem with hfirst | hsecond
      · exact hx m name value hfirst
      · exact hf a m' name value hsecond
  | halted reason m' =>
      rw [bind_of_halted hending] at hmem
      exact hx m name value hmem

theorem elementary (config : Config) {effect : Int64 → Effect} (value : ExprId)
    (h : ∀ result name v, effect result = .assigned name v → name ∈ p.targets) :
    (elementary p config effect value).AssignsTargets p :=
  (silent _).bind fun _ => (silent _).bind fun result => performed (h result)

end AssignsTargets

end Recording

namespace Program

open Recording

theorem recordings_assignsTargets (p : Program) (config : Config) :
    Interpretation.RelatedOn p (fun _ x _ => AssignsTargets p x) (p.recordings config)
      (p.recordings config) where
  nothing := .silent (pure ())
  bind := .bind
  tick := .silent _
  holds _ := .silent _
  assign hnode := by
    apply AssignsTargets.elementary
    rintro result name v ⟨⟩
    exact mem_targets hnode
  print _ := by
    apply AssignsTargets.elementary
    rintro result name v ⟨⟩
  stop _ := .silent _

theorem recordedRun_assignsTargets (p : Program) (config : Config) (fuel : Nat) :
    (p.recordedRun config fuel).AssignsTargets p := by
  intro m name value hmem
  exact (p.recordings_assignsTargets config).body config.forLoop fuel _ name value hmem

/-- However a run ends, and wherever it is cut off, every variable is still one, and a name that is
no target of an assignment has the value it had or still has none. The number of variables has grown
by that of the distinct names without a value before and with one after, which all are targets. -/
theorem run_variables (p : Program) (config : Config) (fuel : Nat) (m : Machine) :
    let before := m.symbols
    let after := (p.run config fuel m).machine.symbols
    (∀ x, (before.get? x).isSome → (after.get? x).isSome) ∧
    (∀ x, x ∉ p.targets → after.get? x = before.get? x) ∧
    ∃ new : List String, new.Nodup ∧
      (∀ x, x ∈ new ↔ before.get? x = none ∧ (after.get? x).isSome) ∧
      (∀ x ∈ new, x ∈ p.targets) ∧
      after.size = before.size + new.length := by
  intro before after
  have hafter : after = (Effect.performAll (p.recordedRun config fuel m).effects m).symbols :=
    (p.effects_recordedRun config fuel m).1
  have hgrown : before.names <+: after.names := by
    rw [hafter]
    exact Effect.names_prefix_performAll _ m
  have hframe : ∀ x, x ∉ p.targets → after.get? x = before.get? x := by
    intro x hx
    rw [hafter, Effect.get?_performAll]
    cases hlast : Effect.lastValue? x (p.recordedRun config fuel m).effects with
    | none => rfl
    | some v =>
        have hmem := Effect.exists_mem_of_lastValue? hlast
        exact absurd (p.recordedRun_assignsTargets config fuel m x v hmem) hx
  obtain ⟨new, hnodup, hnew, hsize⟩ := SymbolTable.exists_new_names hgrown
  refine ⟨fun x hx => ?_, hframe, new, hnodup, hnew, fun x hx => ?_, hsize⟩
  · exact SymbolTable.mem_names_iff.1 (hgrown.subset (SymbolTable.mem_names_iff.2 hx))
  · by_cases htarget : x ∈ p.targets
    · exact htarget
    · obtain ⟨hnone, hsome⟩ := (hnew x).1 hx
      rw [hframe x htarget, hnone] at hsome
      cases hsome

end Program

end Betik
