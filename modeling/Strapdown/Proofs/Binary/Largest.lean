import Strapdown.Proofs.Binary.Bounded

/-! The largest of binary numbers, the infinities included. -/
namespace Strapdown.Binary
open Float.Model

variable {spec : Format} {r s : UnpackedFloat} {a b c m : Float32} {xs : List Float32}

/-- The place of a number among all, with an infinity at either end. -/
def rank : UnpackedFloat → WithBot (WithTop ℚ)
  | .infinity .positive => ⊤
  | .infinity .negative => ⊥
  | r => ((value r : WithTop ℚ) : WithBot (WithTop ℚ))

theorem rank_of_isFinite (h : r.isFinite = true) :
    rank r = ((value r : WithTop ℚ) : WithBot (WithTop ℚ)) := by
  cases r with
  | infinity sign => cases h
  | _ => rfl

theorem lt_iff_rank (hr : Canonical spec r) (hs : Canonical spec s) (hrn : r.isNaN = false)
    (hsn : s.isNaN = false) : r.lt s = true ↔ rank r < rank s := by
  by_cases hf : r.isFinite = true ∧ s.isFinite = true
  · rw [lt_iff_value hr hs hf.1 hf.2, rank_of_isFinite hf.1, rank_of_isFinite hf.2]
    simp
  · cases r with
    | notANumber => cases hrn
    | infinity sign =>
      cases sign <;> cases s with
      | notANumber => cases hsn
      | infinity sign => cases sign <;> simp [UnpackedFloat.lt, UnpackedFloat.compare, rank] <;> decide
      | _ => simp [UnpackedFloat.lt, UnpackedFloat.compare, rank]
    | _ =>
      cases s with
      | notANumber => cases hsn
      | infinity sign =>
        cases sign with
        | positive => exact iff_of_true rfl (WithBot.coe_lt_coe.mpr (WithTop.coe_lt_top _))
        | negative => exact iff_of_false Bool.false_ne_true not_lt_bot
      | _ => exact absurd ⟨rfl, rfl⟩ hf

theorem not_lt_iff (ha : a.isNaN = false) (hb : b.isNaN = false) :
    ¬ a < b ↔ rank (ofFloat32 b) ≤ rank (ofFloat32 a) := by
  rw [lt_iff_lt, lt_iff_rank (fits_ofFloat32 a).canonical (fits_ofFloat32 b).canonical ha hb,
    not_lt]

theorem le_of_not_lt (ha : a.isNaN = false) (hb : b.isNaN = false) (h : ¬ b < a) : a ≤ b := by
  have hle : a ≤ b ↔ (ofFloat32 a).le (ofFloat32 b) = true := decide_eq_true_iff
  rw [lt_iff_lt] at h
  rw [hle]
  change (ofFloat32 a).isNaN = false at ha
  change (ofFloat32 b).isNaN = false at hb
  generalize ofFloat32 a = r at *
  generalize ofFloat32 b = s at *
  by_cases hf : r.isFinite = true ∧ s.isFinite = true
  · rw [le_eq_not_lt hf.1 hf.2, Bool.not_eq_true', ← Bool.not_eq_true]
    exact h
  · cases r with
    | notANumber => cases ha
    | infinity sign =>
      cases s with
      | notANumber => cases hb
      | infinity sign' =>
        cases sign <;> cases sign' <;> first | rfl | exact absurd rfl h
      | _ => cases sign <;> first | rfl | exact absurd rfl h
    | _ =>
      cases s with
      | notANumber => cases hb
      | infinity sign => cases sign <;> first | rfl | exact absurd rfl h
      | _ => exact absurd ⟨rfl, rfl⟩ hf

theorem not_lt_of_isNaN (hb : b.isNaN = true) : ¬ a < b := by
  rw [lt_iff_lt]
  change (ofFloat32 b).isNaN = true at hb
  cases hr : ofFloat32 b with
  | notANumber => cases ofFloat32 a <;> exact Bool.false_ne_true
  | _ => rw [hr] at hb; cases hb

theorem not_lt_of_isNaN_left (ha : a.isNaN = true) : ¬ a < b := by
  rw [lt_iff_lt]
  change (ofFloat32 a).isNaN = true at ha
  cases hr : ofFloat32 a with
  | notANumber => exact Bool.false_ne_true
  | _ => rw [hr] at ha; cases ha

/-- The largest of some numbers. One that is not a number is never the larger one. -/
structure IsLargest (xs : List Float32) (m : Float32) : Prop where
  isNaN : m.isNaN = false
  mem : m ∈ xs
  not_lt : ∀ x ∈ xs, ¬ m < x

theorem isLargest_largerFloat (ha : a.isNaN = false) (b : Float32) :
    IsLargest [a, b] (Numeric.largerFloat a b) := by
  have hself {x : Float32} (hx : x.isNaN = false) : ¬ x < x := (not_lt_iff hx hx).mpr le_rfl
  rw [Numeric.largerFloat, ha, if_neg (by decide)]
  by_cases hb : b.isNaN = true
  · rw [if_pos hb]
    refine ⟨ha, by simp, ?_⟩
    simp [hself ha, not_lt_of_isNaN hb]
  · rw [if_neg hb]
    simp only [Bool.not_eq_true] at hb
    split_ifs with hab
    · refine ⟨hb, by simp, ?_⟩
      have hle := mt (not_lt_iff ha hb).mpr (not_not_intro hab)
      simp only [List.mem_cons, List.not_mem_nil, or_false, forall_eq_or_imp, forall_eq]
      exact ⟨(not_lt_iff hb ha).mpr (not_le.mp hle).le, hself hb⟩
    · refine ⟨ha, by simp, ?_⟩
      simp [hself ha, hab]

theorem isLargest_foldl (ha : a.isNaN = false) :
    IsLargest (a :: xs) (xs.foldl Numeric.largerFloat a) := by
  induction xs generalizing a with
  | nil => exact ⟨ha, by simp, by simp [(not_lt_iff ha ha).mpr le_rfl]⟩
  | cons b xs ih =>
    have hab := isLargest_largerFloat ha b
    have hm := ih hab.isNaN
    -- what is not above the larger of two is not above the largest of all
    have htrans {x : Float32} (hx : x ∈ [a, b]) :
        ¬ xs.foldl Numeric.largerFloat (Numeric.largerFloat a b) < x := by
      by_cases hn : x.isNaN = true
      · exact not_lt_of_isNaN hn
      · simp only [Bool.not_eq_true] at hn
        have h₁ := (not_lt_iff hab.isNaN hn).mp (hab.not_lt x hx)
        have h₂ := (not_lt_iff hm.isNaN hab.isNaN).mp (hm.not_lt _ List.mem_cons_self)
        exact (not_lt_iff hm.isNaN hn).mpr (h₁.trans h₂)
    refine ⟨hm.isNaN, ?_, ?_⟩
    · rw [List.foldl_cons]
      rcases List.mem_cons.mp hm.mem with he | he
      · rw [he]
        have := hab.mem
        simp only [List.mem_cons, List.not_mem_nil, or_false] at this ⊢
        rcases this with h | h <;> simp [h]
      · simp [he]
    · intro x hx
      rw [List.foldl_cons]
      rcases List.mem_cons.mp hx with rfl | hx
      · exact htrans (by simp)
      · rcases List.mem_cons.mp hx with rfl | hx
        · exact htrans (by simp)
        · exact hm.not_lt x (List.mem_cons_of_mem _ hx)

end Strapdown.Binary
