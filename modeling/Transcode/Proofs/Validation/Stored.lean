import Mathlib.Data.List.Nodup
import Transcode.Validation.Stored

/-! # Stored values and their faults

Every parameter is checked on its own, so settings are in order exactly if each parameter takes what
is stored for it. -/

namespace Transcode

namespace Parameter

theorem storedFault?_eq_some_iff {q : Parameter} {s : Settings} {fault : StoredFault} :
    q.storedFault? s = some fault ↔ ∃ v reason, s.renderable q.key = some v ∧
      q.kind.check v.display = .error reason ∧ fault = ⟨q.key, reason⟩ := by
  rw [storedFault?]
  cases hv : s.renderable q.key with
  | none => simp
  | some v => cases hc : q.kind.check v.display <;> simp [hc, eq_comm]

/-- A parameter takes a value that is to be left alone, and any other one that passes its check. -/
def Takes (q : Parameter) (v : Setting) : Prop :=
  v = .dontChange ∨ q.kind.check v.display = .ok ()

theorem storedFault?_eq_none_iff {q : Parameter} {s : Settings} :
    q.storedFault? s = none ↔ ∀ v, s.get? q.key = some v → q.Takes v := by
  have hrenderable : q.storedFault? s = none ↔
      ∀ v, s.renderable q.key = some v → q.kind.check v.display = .ok () := by
    rw [storedFault?]
    cases hv : s.renderable q.key with
    | none => simp
    | some v => cases hc : q.kind.check v.display <;> simp [hc]
  simp only [hrenderable, Settings.renderable_eq_some_iff, Takes, and_imp, or_iff_not_imp_left]

end Parameter

namespace Profile

theorem storedFaults_eq_nil_iff {p : Profile} {s : Settings} :
    p.storedFaults s = [] ↔ ∀ q ∈ p.parameters, ∀ v, s.get? q.key = some v → q.Takes v := by
  simp [storedFaults, List.filterMap_eq_nil_iff, Parameter.storedFault?_eq_none_iff]

/-- What may be rendered passes its check if no fault is about it. -/
theorem check_of_storedFaults {p : Profile} {s : Settings} {q : Parameter} (hq : q ∈ p.parameters)
    {v : Setting} (hv : s.renderable q.key = some v)
    (hok : ∀ fault ∈ p.storedFaults s, fault.key ≠ q.key) : q.kind.check v.display = .ok () := by
  cases hcheck : q.kind.check v.display with
  | ok _ => rfl
  | error reason =>
    have hfault : q.storedFault? s = some ⟨q.key, reason⟩ :=
      Parameter.storedFault?_eq_some_iff.mpr ⟨v, reason, hv, hcheck, rfl⟩
    exact absurd rfl (hok _ (List.mem_filterMap.mpr ⟨q, hq, hfault⟩))

/-- A fault that only one parameter has is the only one. -/
theorem storedFaults_eq_singleton {p : Profile}
    (hkeys : (p.parameters.map (·.key)).Nodup) {q : Parameter} (hq : q ∈ p.parameters)
    {s : Settings} {fault : StoredFault} (hfault : q.storedFault? s = some fault)
    (hothers : ∀ q' ∈ p.parameters, q'.key ≠ q.key → q'.storedFault? s = none) :
    p.storedFaults s = [fault] := by
  obtain ⟨before, after, hsplit⟩ := List.append_of_mem hq
  rw [hsplit, List.map_append, List.map_cons, List.nodup_middle, List.nodup_cons,
    ← List.map_append] at hkeys
  have hnone : ∀ q' ∈ before ++ after, q'.storedFault? s = none := by
    intro q' hq'
    apply hothers q'
    · rw [hsplit]
      simp only [List.mem_append, List.mem_cons] at hq' ⊢
      tauto
    · intro hkey
      exact hkeys.1 (List.mem_map.mpr ⟨q', hq', hkey⟩)
  have hbefore : before.filterMap (fun q => q.storedFault? s) = [] :=
    List.filterMap_eq_nil_iff.mpr fun q' hq' => hnone q' (List.mem_append_left _ hq')
  have hafter : after.filterMap (fun q => q.storedFault? s) = [] :=
    List.filterMap_eq_nil_iff.mpr fun q' hq' => hnone q' (List.mem_append_right _ hq')
  rw [storedFaults, hsplit, List.filterMap_append, List.filterMap_cons, hfault, hbefore, hafter]
  rfl

end Profile

end Transcode
