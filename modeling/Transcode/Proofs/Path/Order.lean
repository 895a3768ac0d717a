import Mathlib.Data.List.Lex
import Transcode.Inputs

/-! # The order of paths

Paths are in the lexicographic order of their components, and two components in the order of their
ranks, so that names are in the order of their bytes. Sorting puts paths into this order. -/

namespace Transcode

theorem Text.lexBefore_iff_lt {as bs : List Nat} : lexBefore as bs = true ↔ as < bs := by
  induction as generalizing bs with
  | nil => cases bs <;> simp [lexBefore]
  | cons a as ih => cases bs <;> simp [lexBefore, List.cons_lt_cons_iff, ih]

namespace Path

theorem Component.rank_injective : Function.Injective Component.rank := by
  intro a b h
  have hname {m n : Text.Bytes} (h : m.map UInt8.toNat = n.map UInt8.toNat) : m = n :=
    (List.map_inj_right fun _ _ => UInt8.toNat_inj.mp).mp h
  cases a <;> cases b <;> simp only [rank, List.cons.injEq] at h
  case name.name => rw [hname h.2]
  all_goals first | rfl | exact absurd h.1 (by decide)

theorem componentsBefore_iff_lt {as bs : List Component} :
    componentsBefore as bs = true ↔ as.map Component.rank < bs.map Component.rank := by
  induction as generalizing bs with
  | nil => cases bs <;> simp [componentsBefore]
  | cons a as ih =>
    cases bs with
    | nil => simp [componentsBefore]
    | cons b bs =>
      simp [componentsBefore, List.cons_lt_cons_iff, ih, Text.lexBefore_iff_lt,
        Component.rank_injective.eq_iff]

/-- The ranks of the components of a path, by which paths are compared. -/
def ranks (p : Path) : List (List Nat) :=
  p.components.map Component.rank

theorem before_iff_lt {p q : Path} : p.before q = true ↔ p.ranks < q.ranks :=
  componentsBefore_iff_lt

theorem ranks_inj {p q : Path} : p.ranks = q.ranks ↔ p.components = q.components :=
  List.map_inj_right fun _ _ h => Component.rank_injective h

end Path

/-- Sorted paths are in order. -/
theorem pairwise_sortPaths (paths : List Path) :
    (sortPaths paths).Pairwise fun p q => p.ranks ≤ q.ranks := by
  have hle (p q : Path) : (!q.before p) = true ↔ p.ranks ≤ q.ranks := by
    rw [Bool.not_eq_true', ← Bool.not_eq_true, Path.before_iff_lt, not_lt]
  have htrans (p q r : Path) (hpq : (!q.before p) = true) (hqr : (!r.before q) = true) :
      (!r.before p) = true :=
    (hle p r).mpr (((hle p q).mp hpq).trans ((hle q r).mp hqr))
  have htotal (p q : Path) : (!q.before p || !p.before q) = true := by
    rw [Bool.or_eq_true, hle, hle]
    exact le_total _ _
  exact (List.pairwise_mergeSort htrans htotal paths).imp (hle _ _).mp

/-- Sorted paths with distinct components are in strict order. -/
theorem pairwise_lt_sortPaths {paths : List Path} (h : (paths.map Path.components).Nodup) :
    (sortPaths paths).Pairwise fun p q => p.ranks < q.ranks := by
  have hperm : (sortPaths paths).Perm paths := List.mergeSort_perm paths _
  have hdistinct : (sortPaths paths).Pairwise fun p q => p.components ≠ q.components :=
    List.pairwise_map.mp ((hperm.map Path.components).nodup_iff.mpr h)
  exact ((pairwise_sortPaths paths).and hdistinct).imp fun hpq =>
    lt_of_le_of_ne hpq.1 (Path.ranks_inj.not.mpr hpq.2)

end Transcode
