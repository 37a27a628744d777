import Mathlib.Data.List.Nodup
import Stimulus.Proofs.Expr.Chain

/-!
# Which conditions keep their meaning

A converted condition is read as one chain, where a number takes the field of the next comparison as
an operand of its own. So a single comparison keeps its meaning, and no other condition on distinct
fields does.
-/

open List

namespace Stimulus.Expr

open Sv

/-! ## Items and their fields -/

/-- Items without their joints. -/
def unjoined (items : Cond × List (Joint × Cond)) : List Cond := items.1 :: items.2.map Prod.snd

theorem unjoined_append (items items' : Cond × List (Joint × Cond)) (j : Joint) :
    unjoined (items.1, items.2 ++ (j, items'.1) :: items'.2) = unjoined items ++ unjoined items' := by
  simp [unjoined]

namespace Cond

/-- A disjunction, which stands in parentheses as an item. -/
def isGroup : Cond → Bool
  | or .. => true
  | _ => false

theorem fields_ne_nil (e : Cond) : e.fields ≠ [] := by
  induction e with
  | compare x r n => simp [fields]
  | and a b ha hb | or a b ha hb => simp [fields, ha]

theorem fields_operandItems {e : Cond} (h : (unjoined e.items).flatMap fields = e.fields) :
    (unjoined (e.operandItems e.items)).flatMap fields = e.fields := by
  cases e with
  | compare | and => exact h
  | or a b => simp [operandItems, unjoined]

theorem fields_items (e : Cond) : (unjoined e.items).flatMap fields = e.fields := by
  induction e with
  | compare x r n => simp [items, unjoined]
  | and a b ha hb =>
    rw [items, unjoined_append, flatMap_append, fields_operandItems ha, fields_operandItems hb,
      fields]
  | or a b ha hb => rw [items, unjoined_append, flatMap_append, ha, hb, fields]

/-- An item is a comparison or a smaller disjunction. -/
def IsItemOf (size : Nat) (i : Cond) : Prop :=
  (∃ x r n, i = compare x r n) ∨ i.isGroup = true ∧ i.fields.length < size

theorem IsItemOf.mono {size size' : Nat} {i : Cond} (h : IsItemOf size i) (hle : size ≤ size') :
    IsItemOf size' i := h.imp_right fun ⟨hg, hlt⟩ => ⟨hg, by omega⟩

theorem isItemOf_operandItems {e : Cond} (h : ∀ i ∈ unjoined e.items, IsItemOf e.fields.length i) :
    ∀ i ∈ unjoined (e.operandItems e.items), IsItemOf (e.fields.length + 1) i := by
  cases e with
  | compare | and => exact fun i hi => (h i hi).mono (by omega)
  | or a b =>
    intro i hi
    obtain rfl : i = or a b := by simpa [operandItems, unjoined] using hi
    exact .inr ⟨rfl, by omega⟩

theorem isItemOf_items (e : Cond) : ∀ i ∈ unjoined e.items, IsItemOf e.fields.length i := by
  induction e with
  | compare x r n =>
    intro i hi
    exact .inl ⟨x, r, n, by simpa [items, unjoined] using hi⟩
  | and a b ha hb =>
    have hna := length_pos_iff.2 a.fields_ne_nil
    have hnb := length_pos_iff.2 b.fields_ne_nil
    rw [items, unjoined_append, fields, length_append]
    exact forall_mem_append.2
      ⟨fun i hi => (isItemOf_operandItems ha i hi).mono (by omega),
        fun i hi => (isItemOf_operandItems hb i hi).mono (by omega)⟩
  | or a b ha hb =>
    rw [items, unjoined_append, fields, length_append]
    exact forall_mem_append.2
      ⟨fun i hi => (ha i hi).mono (by omega), fun i hi => (hb i hi).mono (by omega)⟩

theorem induction_items {P : Cond → Prop}
    (h : ∀ e : Cond, (∀ i ∈ unjoined e.items, i.isGroup = true → P i) → P e) (e : Cond) : P e := by
  induction hn : e.fields.length using Nat.strong_induction_on generalizing e with
  | _ n ih =>
    refine h e fun i hi hg => ?_
    rcases e.isItemOf_items i hi with ⟨x, r, n, rfl⟩ | ⟨-, hlt⟩
    · cases hg
    · exact ih _ (hn ▸ hlt) i rfl

end Cond

/-! ## Values for some of the fields -/

/-- The same values for the fields `xs`. -/
def Agree (xs : List Ident) (σ τ : String → Int) : Prop := ∀ x ∈ xs, σ x.name = τ x.name

theorem Agree.subset {xs ys : List Ident} {σ τ : String → Int} (h : Agree ys σ τ) (hs : xs ⊆ ys) :
    Agree xs σ τ := fun x hx => h x (hs hx)

/-- The values of `σ` for the fields `xs`, and those of `τ` for all others. -/
def merge (xs : List Ident) (σ τ : String → Int) (x : String) : Int :=
  if x ∈ xs.map Ident.name then σ x else τ x

theorem name_injective : Function.Injective Ident.name := by
  intro x y h
  have hchars : x.chars = y.chars := String.ofList_injective h
  cases x
  cases y
  cases hchars
  rfl

theorem agree_merge (xs : List Ident) (σ τ : String → Int) : Agree xs (merge xs σ τ) σ :=
  fun _ hx => if_pos (mem_map_of_mem hx)

theorem agree_merge_of_disjoint {xs ys : List Ident} (h : xs.Disjoint ys) (σ τ : String → Int) :
    Agree ys (merge xs σ τ) τ := by
  intro y hy
  refine if_neg fun hmem => ?_
  obtain ⟨x, hx, hxy⟩ := mem_map.1 hmem
  exact h hx (name_injective hxy ▸ hy)

theorem exists_rel_holds (r : Rel) (n : Int) (b : Bool) : ∃ v, r.holds v n = b := by
  cases b with
  | true =>
    cases r with
    | eq | le | ge => exact ⟨n, by simp [Rel.holds]⟩
    | lt => exact ⟨n - 1, decide_eq_true (by omega)⟩
    | gt => exact ⟨n + 1, decide_eq_true (by omega)⟩
    | ne => exact ⟨n + 1, by simp [Rel.holds]⟩
  | false =>
    cases r with
    | ne | lt | gt => exact ⟨n, by simp [Rel.holds]⟩
    | ge => exact ⟨n - 1, decide_eq_false (by omega)⟩
    | le => exact ⟨n + 1, decide_eq_false (by omega)⟩
    | eq => exact ⟨n + 1, by simp [Rel.holds]⟩

namespace Cond

theorem holds_congr {e : Cond} {σ τ : String → Int} (h : Agree e.fields σ τ) :
    e.holds σ = e.holds τ := by
  induction e with
  | compare x r n => rw [holds, holds, h x (by simp [fields])]
  | and a b ha hb | or a b ha hb =>
    rw [holds, holds, ha (h.subset (by simp [fields])), hb (h.subset (by simp [fields]))]

theorem fields_subset_of_mem_items {e i : Cond} (hi : i ∈ unjoined e.items) :
    i.fields ⊆ e.fields := by
  intro x hx
  rw [← fields_items]
  exact mem_flatMap.2 ⟨i, hi, hx⟩

theorem part_congr {i : Cond} {σ τ : String → Int} (h : Agree i.fields σ τ)
    (hv : i.isGroup = true → i.reading.value σ = i.reading.value τ) {size : Nat}
    (hi : IsItemOf size i) : i.part σ = i.part τ := by
  rcases hi with ⟨x, r, n, rfl⟩ | ⟨hg, -⟩
  · rw [part, part, h x (by simp [fields])]
  · cases i with
    | compare | and => cases hg
    | or a b => exact congrArg Part.value (hv hg)

theorem value_congr (e : Cond) : ∀ {σ τ : String → Int}, Agree e.fields σ τ →
    e.reading.value σ = e.reading.value τ := by
  induction e using induction_items with
  | h e ih =>
    intro σ τ h
    have hpart : ∀ i ∈ unjoined e.items, i.part σ = i.part τ := fun i hi =>
      have hag := h.subset (fields_subset_of_mem_items hi)
      part_congr hag (fun hg => ih i hi hg hag) (e.isItemOf_items i hi)
    obtain ⟨hfirst, hmore⟩ := forall_mem_cons.1 hpart
    have hparts : parts σ e.items.2 = parts τ e.items.2 :=
      map_congr_left fun c hc => congrArg (c.1, ·) (hmore c.2 (mem_map_of_mem hc))
    rw [value_reading, value_reading, hfirst, hparts]

theorem isBit_value (σ : String → Int) (e : Cond) : IsBit (e.reading.value σ) := by
  induction e using induction_items with
  | h e ih =>
    have hbit : ∀ i ∈ unjoined e.items, (i.part σ).HasBit := by
      intro i hi
      cases i with
      | compare => trivial
      | or a b => exact ih _ hi rfl
      | and a b =>
        rcases e.isItemOf_items _ hi with ⟨x, r, n, h⟩ | ⟨hg, -⟩
        · cases h
        · cases hg
    obtain ⟨hfirst, hmore⟩ := forall_mem_cons.1 hbit
    rw [value_reading]
    refine isBit_evaluate hfirst fun c hc => ?_
    obtain ⟨i, hi, rfl⟩ := mem_map.1 hc
    exact hmore i.2 (mem_map_of_mem hi)

theorem exists_holds {e : Cond} (h : e.fields.Nodup) (b : Bool) : ∃ σ, e.holds σ = b := by
  induction e with
  | compare x r n =>
    obtain ⟨v, hv⟩ := exists_rel_holds r n b
    exact ⟨fun _ => v, hv⟩
  | and e f he hf | or e f he hf =>
    obtain ⟨hne, hnf, hdisj⟩ := nodup_append'.1 h
    obtain ⟨σ, hσ⟩ := he hne
    obtain ⟨τ, hτ⟩ := hf hnf
    refine ⟨merge e.fields σ τ, ?_⟩
    rw [holds, holds_congr (agree_merge e.fields σ τ), hσ,
      holds_congr (agree_merge_of_disjoint hdisj σ τ), hτ]
    cases b <;> rfl

theorem exists_truths {items : List (Joint × Cond)} (h : ((items.map Prod.snd).flatMap fields).Nodup)
    (want : Joint → Bool) : ∃ σ, truths σ items = items.map fun c => (c.1, want c.1) := by
  induction items with
  | nil => exact ⟨fun _ => 0, rfl⟩
  | cons c items ih =>
    rw [map_cons, flatMap_cons] at h
    obtain ⟨hc, hitems, hdisj⟩ := nodup_append'.1 h
    obtain ⟨σ, hσ⟩ := exists_holds hc (want c.1)
    obtain ⟨τ, hτ⟩ := ih hitems
    refine ⟨merge c.2.fields σ τ, ?_⟩
    rw [map_cons, ← hσ, ← holds_congr (agree_merge c.2.fields σ τ), ← hτ]
    refine congrArg _ (map_congr_left fun d hd => congrArg (d.1, ·) (holds_congr ?_))
    refine (agree_merge_of_disjoint hdisj σ τ).subset fun x hx => ?_
    exact mem_flatMap.2 ⟨d.2, mem_map_of_mem hd, hx⟩

end Cond

/-- A joint between two conditions. -/
def Joint.apply : Joint → Bool → Bool → Bool
  | .conj => (· && ·)
  | .disj => (· || ·)

theorem tail_neutral (items : List (Joint × Cond)) :
    tail (items.map fun c => (c.1, decide (c.1 = .conj))) = (true, false) := by
  induction items with
  | nil => rfl
  | cons c items ih =>
    obtain ⟨j, c⟩ := c
    cases j <;> simp [tail, ih]

theorem total_neutral (a b : Bool) (j : Joint) (items : List (Joint × Cond)) :
    total a ((j, b) :: items.map fun c => (c.1, decide (c.1 = .conj))) = j.apply a b := by
  cases j <;> simp [total, tail, tail_neutral, Joint.apply]

theorem exists_parts {e i k : Cond} {j : Joint} {more : List (Joint × Cond)}
    (hitems : e.items = (i, (j, k) :: more)) (h : e.fields.Nodup) :
    ∃ ps, ∀ σ τ, ∃ ρ, e.holds ρ = j.apply (i.holds σ) (k.holds τ) ∧
      e.reading.value ρ = evaluate (i.part σ) ((j, k.part τ) :: ps) := by
  have hfields : e.fields = i.fields ++ (k.fields ++ (more.map Prod.snd).flatMap Cond.fields) := by
    rw [← Cond.fields_items, hitems]
    simp [unjoined]
  rw [hfields] at h
  obtain ⟨-, hrest, hi⟩ := nodup_append'.1 h
  obtain ⟨-, hmore, hk⟩ := nodup_append'.1 hrest
  obtain ⟨υ, hυ⟩ := Cond.exists_truths hmore fun j => decide (j = .conj)
  refine ⟨Cond.parts υ more, fun σ τ => ⟨merge i.fields σ (merge k.fields τ υ), ?_⟩⟩
  generalize hρ : merge i.fields σ (merge k.fields τ υ) = ρ
  have hagi : Agree i.fields ρ σ := hρ ▸ agree_merge i.fields σ _
  have hag : Agree (k.fields ++ (more.map Prod.snd).flatMap Cond.fields) ρ (merge k.fields τ υ) :=
    hρ ▸ agree_merge_of_disjoint hi σ _
  have hagk : Agree k.fields ρ τ := fun x hx =>
    (hag x (mem_append_left _ hx)).trans (agree_merge k.fields τ υ x hx)
  have hagm : ∀ c ∈ more, Agree c.2.fields ρ υ := fun c hc x hx => by
    have hx := mem_flatMap.2 ⟨c.2, mem_map_of_mem hc, hx⟩
    exact (hag x (mem_append_right _ hx)).trans (agree_merge_of_disjoint hk τ υ x hx)
  have hpart : ∀ l ∈ unjoined e.items, ∀ π, Agree l.fields ρ π → l.part ρ = l.part π :=
    fun l hl π hπ => Cond.part_congr hπ (fun _ => l.value_congr hπ) (e.isItemOf_items l hl)
  have hmoreItem : ∀ c ∈ more, c.2 ∈ unjoined e.items := fun c hc => by
    rw [hitems]
    exact mem_cons_of_mem _ (mem_cons_of_mem _ (mem_map_of_mem hc))
  have htruths : Cond.truths ρ more = Cond.truths υ more :=
    map_congr_left fun c hc => congrArg (c.1, ·) (Cond.holds_congr (hagm c hc))
  have hparts : Cond.parts ρ more = Cond.parts υ more :=
    map_congr_left fun c hc =>
      congrArg (c.1, ·) (hpart c.2 (hmoreItem c hc) υ (hagm c hc))
  constructor
  · have hcons : Cond.truths ρ ((j, k) :: more) = (j, k.holds ρ) :: Cond.truths ρ more := rfl
    rw [Cond.holds_items, hitems, hcons, htruths, hυ, total_neutral, Cond.holds_congr hagi,
      Cond.holds_congr hagk]
  · have hcons : Cond.parts ρ ((j, k) :: more) = (j, k.part ρ) :: Cond.parts ρ more := rfl
    rw [value_reading, hitems, hcons, hparts, hpart i (by simp [hitems, unjoined]) σ hagi,
      hpart k (by simp [hitems, unjoined]) τ hagk]

/-! ## Two comparisons or more -/

/-- Bits above those of `n` are of no account. -/
theorem land_add_two_pow_mul {n k : Nat} (h : n < 2 ^ k) (v m : Nat) :
    Int.land n (v + 2 ^ k * m : Nat) = Int.land n v := by
  have hlow : ∀ w : Nat, n &&& w = n &&& w % 2 ^ k := fun w => by
    rw [← Nat.and_two_pow_sub_one_eq_mod, Nat.and_comm w, ← Nat.and_assoc,
      Nat.and_two_pow_sub_one_of_lt_two_pow h]
  have hand : n &&& (v + 2 ^ k * m) = n &&& v := by
    rw [hlow, Nat.add_mul_mod_self_left, ← hlow]
  exact congrArg Int.ofNat hand

theorem land_neg_one (n : Nat) : Int.land n (-1) = n := by
  refine congrArg Int.ofNat (Nat.eq_of_testBit_eq fun i => ?_)
  simp [Nat.testBit_ldiff]

/-- Two values that a comparison tells apart, and that have the same bits in `n`. -/
theorem exists_twins (n : Nat) (r : Rel) (m : Nat) :
    ∃ v w, Int.land n v = Int.land n w ∧ r.holds v m = true ∧ r.holds w m = false := by
  have hlt : n < 2 ^ n := Nat.lt_two_pow_self
  have hnear := land_add_two_pow_mul hlt m 1
  have hfar : Int.land n (n + 2 ^ n * (m + 1) : Nat) = Int.land n (-1) := by
    rw [land_add_two_pow_mul hlt, land_neg_one]
    exact congrArg Int.ofNat (Nat.and_self n)
  have hbig : m < n + 2 ^ n * (m + 1) := by
    have := Nat.mul_le_mul_right (m + 1) (Nat.one_le_two_pow (n := n))
    omega
  have hnext : m ≠ m + 2 ^ n * 1 := by omega
  cases r with
  | eq => exact ⟨_, _, hnear.symm, by simp [Rel.holds], by simp [Rel.holds]⟩
  | ne => exact ⟨_, _, hnear, by simp [Rel.holds], by simp [Rel.holds]⟩
  | lt | le => refine ⟨_, _, hfar.symm, ?_, ?_⟩ <;> simp only [Rel.holds, decide_eq_true_eq, decide_eq_false_iff_not] <;> omega
  | gt | ge => refine ⟨_, _, hfar, ?_, ?_⟩ <;> simp only [Rel.holds, decide_eq_true_eq, decide_eq_false_iff_not] <;> omega

theorem rel_holds_below (r : Rel) {v n : Int} (h : v < n) : r.holds v n = r.holds (-1) 0 := by
  cases r with
  | eq | ne =>
    have hne : v ≠ n := by omega
    simp [Rel.holds, hne]
  | lt | gt | le | ge =>
    simp [Rel.holds]
    omega

/-- The converted condition is not the condition, nor its negation. -/
def Cond.Differs (e : Cond) : Prop := ∀ c, ∃ σ, e.reading.truth σ ≠ (e.holds σ ^^ c)

theorem differs_of_comparisons {e : Cond} {x y : Ident} {r s : Rel} {n m : Nat} {j : Joint}
    {more : List (Joint × Cond)}
    (hitems : e.items = (.compare x r n, (j, .compare y s m) :: more)) (h : e.fields.Nodup) :
    e.Differs := by
  obtain ⟨ps, hps⟩ := exists_parts hitems h
  -- What follows the second comparison depends on the second operand of the chain only.
  obtain ⟨rest, hrest⟩ : ∃ rest : Int → Bool, ∀ v w, ∃ σ,
      e.holds σ = j.apply (r.holds v n) (s.holds w m) ∧
        e.reading.truth σ = (r.holds v (j.bits n w) && rest (j.bits n w)) := by
    refine ⟨fun o => (feed ({ left := some (o, s) }, m) ps).1.result
      (feed ({ left := some (o, s) }, m) ps).2 != 0, fun v w => ?_⟩
    obtain ⟨σ, hholds, hvalue⟩ := hps (fun _ => v) (fun _ => w)
    refine ⟨σ, hholds, ?_⟩
    rw [Reading.truth, hvalue, ← evaluate_comparisons]
    rfl
  intro c
  cases c with
  | true =>
    -- The second comparison decides nothing, and the first one is the same in both.
    obtain ⟨w, hw⟩ := exists_rel_holds s m (decide (j = .conj))
    have happly : ∀ b, j.apply b (decide (j = .conj)) = b := by cases j <;> simp [Joint.apply]
    cases hr : rest (j.bits n w) with
    | true =>
      obtain ⟨v, hn, hbits⟩ : ∃ v : Int, v < n ∧ v < j.bits n w :=
        ⟨min (n : Int) (j.bits n w) - 1, by omega, by omega⟩
      have hv := (rel_holds_below r hn).trans (rel_holds_below r hbits).symm
      obtain ⟨σ, hholds, htruth⟩ := hrest v w
      exact ⟨σ, by simp [htruth, hholds, hr, hw, happly, hv]⟩
    | false =>
      obtain ⟨v, hv⟩ := exists_rel_holds r n false
      obtain ⟨σ, hholds, htruth⟩ := hrest v w
      exact ⟨σ, by simp [htruth, hholds, hr, hw, happly, hv]⟩
  | false =>
    cases j with
    | conj =>
      -- Only the condition tells the twins apart.
      obtain ⟨w, w', hbits, hw, hw'⟩ := exists_twins n s m
      obtain ⟨v, hv⟩ := exists_rel_holds r n true
      obtain ⟨σ, hholds, htruth⟩ := hrest v w
      obtain ⟨σ', hholds', htruth'⟩ := hrest v w'
      have hsame : e.reading.truth σ = e.reading.truth σ' := by
        rw [htruth, htruth', Joint.bits, hbits]
      cases ht : e.reading.truth σ with
      | true => exact ⟨σ', by simp [← hsame, ht, hholds', hv, hw', Joint.apply]⟩
      | false => exact ⟨σ, by simp [ht, hholds, hv, hw, Joint.apply]⟩
    | disj =>
      -- The second comparison is true, and the chain is broken at the first one.
      obtain ⟨w, hw⟩ := exists_rel_holds s m true
      obtain ⟨v, hv⟩ := exists_rel_holds r (Joint.disj.bits n w) false
      obtain ⟨σ, hholds, htruth⟩ := hrest v w
      exact ⟨σ, by simp [htruth, hholds, hv, hw, Joint.apply]⟩

/-! ## An item in parentheses -/

theorem Cond.Differs.comp {e : Cond} (h : e.Differs) (hn : e.fields.Nodup) (f : Bool → Bool)
    (c : Bool) : ∃ σ, f (e.reading.truth σ) ≠ (e.holds σ ^^ c) := by
  by_contra hall
  have hall : ∀ σ, f (e.reading.truth σ) = (e.holds σ ^^ c) := by simpa using hall
  obtain ⟨σ, hσ⟩ := e.exists_holds hn true
  obtain ⟨τ, hτ⟩ := e.exists_holds hn false
  obtain ⟨ρ, hρ⟩ := h (c ^^ f false)
  have h₁ := hall σ
  have h₂ := hall τ
  have h₃ := hall ρ
  rw [hσ] at h₁
  rw [hτ] at h₂
  revert h₁ h₂ h₃ hρ
  generalize e.reading.truth σ = a
  generalize e.reading.truth τ = b
  generalize e.reading.truth ρ = d
  generalize e.holds ρ = k
  cases ht : f true <;> cases hf : f false <;> cases a <;> cases b <;> cases c <;> cases d <;>
    cases k <;> simp [ht, hf]

/-- The part of an item in parentheses, given what it says. -/
def bitPart (b : Bool) : Part := .value (if b then 1 else 0)

theorem part_group {i : Cond} (hg : i.isGroup = true) (σ : String → Int) :
    i.part σ = bitPart (i.reading.truth σ) := by
  cases i with
  | compare | and => cases hg
  | or a b =>
    refine congrArg Part.value ?_
    rcases Cond.isBit_value σ (.or a b) with h | h <;> simp [Reading.truth, h]

/-- If what a condition says is what one of its items in parentheses says, then it differs as that
item does. -/
theorem differs_of_group {e i : Cond} (hg : i.isGroup = true) (hn : i.fields.Nodup)
    (hi : i.Differs) {f : Part → Bool}
    (h : ∀ σ, ∃ ρ, e.holds ρ = i.holds σ ∧ e.reading.truth ρ = f (i.part σ)) : e.Differs := by
  intro c
  obtain ⟨σ, hσ⟩ := hi.comp hn (fun b => f (bitPart b)) c
  obtain ⟨ρ, hholds, htruth⟩ := h σ
  refine ⟨ρ, ?_⟩
  rw [hholds, htruth, part_group hg]
  exact hσ

namespace Cond

theorem nodup_of_mem_items {e i : Cond} (h : e.fields.Nodup) (hi : i ∈ unjoined e.items) :
    i.fields.Nodup := by
  rw [← fields_items, nodup_flatMap] at h
  exact h.1 i hi

theorem exists_two_items {e : Cond} (h : ¬ ∃ x r n, e = compare x r n) :
    ∃ i j k more, e.items = (i, (j, k) :: more) := by
  have hcons : ∀ (i : Cond) (l : List (Joint × Cond)) (c : Joint × Cond) (l' : List (Joint × Cond)),
      ∃ i' j k more, (i, l ++ c :: l') = (i', (j, k) :: more) := by
    intro i l c l'
    cases l with
    | nil => exact ⟨i, c.1, c.2, l', rfl⟩
    | cons d l => exact ⟨i, d.1, d.2, l ++ c :: l', rfl⟩
  cases e with
  | compare x r n => exact absurd ⟨x, r, n, rfl⟩ h
  | and a b | or a b => exact hcons _ _ _ _

/-- With two comparisons or more on distinct fields, the converted condition is neither the condition
nor its negation. -/
theorem differs (e : Cond) : e.fields.Nodup → (¬ ∃ x r n, e = compare x r n) → e.Differs := by
  induction e using induction_items with
  | h e ih =>
    intro hn hcompound
    obtain ⟨i, j, k, more, hitems⟩ := exists_two_items hcompound
    have hmemi : i ∈ unjoined e.items := by simp [hitems, unjoined]
    have hmemk : k ∈ unjoined e.items := by simp [hitems, unjoined]
    have hgroup : ∀ l ∈ unjoined e.items, l.isGroup = true → l.Differs := by
      intro l hl hg
      refine ih l hl hg (nodup_of_mem_items hn hl) ?_
      rintro ⟨x, r, n, rfl⟩
      cases hg
    obtain ⟨ps, hps⟩ := exists_parts hitems hn
    rcases e.isItemOf_items i hmemi with ⟨x, r, n, rfl⟩ | ⟨hg, -⟩
    · rcases e.isItemOf_items k hmemk with ⟨y, s, m, rfl⟩ | ⟨hg, -⟩
      · exact differs_of_comparisons hitems hn
      · obtain ⟨τ, hτ⟩ := exists_holds (nodup_of_mem_items hn hmemi) (decide (j = .conj))
        refine differs_of_group hg (nodup_of_mem_items hn hmemk) (hgroup k hmemk hg)
          (f := fun p => evaluate (part τ (compare x r n)) ((j, p) :: ps) != 0) fun σ => ?_
        obtain ⟨ρ, hholds, hvalue⟩ := hps τ σ
        refine ⟨ρ, ?_, congrArg (· != 0) hvalue⟩
        rw [hholds, hτ]
        cases j <;> simp [Joint.apply]
    · obtain ⟨τ, hτ⟩ := exists_holds (nodup_of_mem_items hn hmemk) (decide (j = .conj))
      refine differs_of_group hg (nodup_of_mem_items hn hmemi) (hgroup i hmemi hg)
        (f := fun p => evaluate p ((j, k.part τ) :: ps) != 0) fun σ => ?_
      obtain ⟨ρ, hholds, hvalue⟩ := hps σ τ
      refine ⟨ρ, ?_, congrArg (· != 0) hvalue⟩
      rw [hholds, hτ]
      cases j <;> simp [Joint.apply]

theorem truth_compare (x : Ident) (r : Rel) (n : Nat) (σ : String → Int) :
    (compare x r n).reading.truth σ = (compare x r n).holds σ := by
  rw [Reading.truth, value_reading]
  cases h : r.holds (σ x.name) n <;>
    simp [items, part, parts, evaluate, feed, Progress.put, Progress.compare, Progress.result,
      Progress.verdict, Progress.operand, Progress.joined, holds, h]

theorem truth_reading_iff {e : Cond} (h : e.fields.Nodup) :
    (∀ σ, e.reading.truth σ = e.holds σ) ↔ ∃ x r n, e = compare x r n := by
  refine ⟨fun hall => ?_, ?_⟩
  · by_contra hcompound
    obtain ⟨σ, hσ⟩ := e.differs h hcompound false
    exact hσ (by simpa using hall σ)
  · rintro ⟨x, r, n, rfl⟩
    exact truth_compare x r n

end Cond

/-- A converted condition on fields is read as one chain. With distinct fields, that chain means what
the condition means exactly if the condition is a single comparison. -/
theorem convert_keeps_meaning_iff {scope : Scope} (isCondition : Bool) {e : Cond}
    (h : ∀ x ∈ e.fields, scope.IsField x) :
    read? (convert scope e.text isCondition) = some e.reading ∧
      ((∃ x r n, e = .compare x r n) → ∀ σ, e.reading.truth σ = e.holds σ) ∧
      (e.fields.Nodup → (∀ σ, e.reading.truth σ = e.holds σ) → ∃ x r n, e = .compare x r n) := by
  refine ⟨read_convert isCondition h, ?_, fun hn => (Cond.truth_reading_iff hn).1⟩
  rintro ⟨x, r, n, rfl⟩
  exact Cond.truth_compare x r n

theorem convert_either_loses_meaning : ∃ e : Cond,
    e.text = "a == 0 || b == 1" ∧ (∀ x ∈ e.fields, Scope.IsField {} x) ∧ e.fields.Nodup ∧
      read? (convert {} e.text) = some e.reading ∧ ¬ ∀ σ, e.reading.truth σ = e.holds σ := by
  let a : Ident := ⟨['a'], by decide, by decide⟩
  let b : Ident := ⟨['b'], by decide, by decide⟩
  have hfields : ∀ x ∈ [a, b], Scope.IsField {} x := by
    simp only [List.forall_mem_cons]
    exact ⟨⟨by decide, by decide, by decide⟩, ⟨by decide, by decide, by decide⟩, by simp⟩
  obtain ⟨hread, -, hsingle⟩ := @convert_keeps_meaning_iff {} false
    (.or (.compare a .eq 0) (.compare b .eq 1)) hfields
  refine ⟨.or (.compare a .eq 0) (.compare b .eq 1), by decide, hfields, by decide, hread, ?_⟩
  intro hkept
  obtain ⟨x, r, n, he⟩ := hsingle (by decide) hkept
  cases he

end Stimulus.Expr
