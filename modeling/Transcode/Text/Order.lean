/-!
# The order of texts

Texts are ordered by the code points of their characters, which is also the order of their UTF-8
bytes. Both orders compare sequences of numbers from the left, a sequence before its extensions.
-/

namespace Transcode.Text

/-- Sequences of numbers compared from the left; a sequence comes before its extensions. -/
def lexBefore : List Nat → List Nat → Bool
  | _, [] => false
  | [], _ :: _ => true
  | a :: as, b :: bs => a < b || (a == b && lexBefore as bs)

/-- One text comes before another when its code points do. -/
def before (s t : String) : Bool :=
  lexBefore (s.toList.map Char.toNat) (t.toList.map Char.toNat)

theorem lexBefore_irrefl (as : List Nat) : lexBefore as as = false := by
  induction as with
  | nil => rfl
  | cons a as ih => simp [lexBefore, ih]

theorem lexBefore_trans {as bs cs : List Nat} (h₁ : lexBefore as bs = true)
    (h₂ : lexBefore bs cs = true) : lexBefore as cs = true := by
  induction as generalizing bs cs with
  | nil =>
    cases bs with
    | nil => simp [lexBefore] at h₁
    | cons b bs =>
      cases cs with
      | nil => simp [lexBefore] at h₂
      | cons c cs => rfl
  | cons a as ih =>
    cases bs with
    | nil => simp [lexBefore] at h₁
    | cons b bs =>
      cases cs with
      | nil => simp [lexBefore] at h₂
      | cons c cs =>
        simp only [lexBefore, Bool.or_eq_true, Bool.and_eq_true, decide_eq_true_eq,
          beq_iff_eq] at h₁ h₂ ⊢
        rcases h₁ with h₁ | ⟨rfl, h₁⟩ <;> rcases h₂ with h₂ | ⟨rfl, h₂⟩
        · exact .inl (Nat.lt_trans h₁ h₂)
        · exact .inl h₁
        · exact .inl h₂
        · exact .inr ⟨rfl, ih h₁ h₂⟩

/-- Two sequences neither of which comes before the other are one. -/
theorem eq_of_not_lexBefore {as bs : List Nat} (h₁ : lexBefore as bs = false)
    (h₂ : lexBefore bs as = false) : as = bs := by
  induction as generalizing bs with
  | nil =>
    cases bs with
    | nil => rfl
    | cons b bs => simp [lexBefore] at h₁
  | cons a as ih =>
    cases bs with
    | nil => simp [lexBefore] at h₂
    | cons b bs =>
      simp only [lexBefore, Bool.or_eq_false_iff, decide_eq_false_iff_not,
        Bool.and_eq_false_iff, beq_eq_false_iff_ne] at h₁ h₂
      have hab : a = b := by omega
      subst hab
      congr 1
      exact ih (by simpa using h₁.2) (by simpa using h₂.2)

theorem before_irrefl (s : String) : before s s = false :=
  lexBefore_irrefl _

theorem before_trans {s t u : String} (h₁ : before s t = true) (h₂ : before t u = true) :
    before s u = true :=
  lexBefore_trans h₁ h₂

/-- Texts neither of which comes before the other are one text. -/
theorem eq_of_not_before {s t : String} (h₁ : before s t = false) (h₂ : before t s = false) :
    s = t := by
  have h := eq_of_not_lexBefore h₁ h₂
  refine String.toList_inj.mp ?_
  exact (List.map_inj_right fun _ _ => Char.toNat_inj.mp).mp h

end Transcode.Text
