import Stimulus.Proofs.Expr.Condition

/-!
# What a converted condition says

A converted condition is a sequence of comparisons and parentheses with `&` and `|` between them, and
is read as one chain. What it says is computed along the sequence, and depends only on the values in
it.
-/

open List

namespace Stimulus.Expr

open Sv

/-- A conjunction or a disjunction. -/
inductive Joint where
  | conj
  | disj
deriving DecidableEq

/-! ## Items of a condition -/

/-- The items of an operand of a conjunction: a disjunction is a single one. -/
def Cond.operandItems : Cond → Cond × List (Joint × Cond) → Cond × List (Joint × Cond)
  | .or a b, _ => (.or a b, [])
  | _, items => items

/-- The comparisons and parenthesised disjunctions of a condition, with the joints between them. -/
def Cond.items : Cond → Cond × List (Joint × Cond)
  | .compare x r n => (.compare x r n, [])
  | .and a b =>
    let left := a.operandItems a.items
    let right := b.operandItems b.items
    (left.1, left.2 ++ (.conj, right.1) :: right.2)
  | .or a b => (a.items.1, a.items.2 ++ (.disj, b.items.1) :: b.items.2)

/-! ## Values along a chain -/

/-- An item for given values of the fields. -/
inductive Part where
  | comparison (v : Int) (r : Rel) (n : Nat)
  | value (v : Int)

/-- The values of what waits for an operand. -/
structure Progress where
  /-- The last operand of the chain, and the comparison after it. -/
  left : Option (Int × Rel) := none
  /-- The comparisons so far hold. -/
  ok : Bool := true
  either : Option Int := none
  both : Option Int := none

namespace Progress

/-- The conjunction that waits, with its next operand. -/
def joined (g : Progress) (v : Int) : Int :=
  match g.both with
  | none => v
  | some b => Int.land b v

/-- The disjunction that waits, with its next operand. -/
def operand (g : Progress) (v : Int) : Int :=
  match g.either with
  | none => g.joined v
  | some b => Int.lor b (g.joined v)

/-- All comparisons hold, if the next operand of the chain has this value. -/
def verdict (g : Progress) (v : Int) : Bool :=
  g.ok && match g.left with
    | none => true
    | some (u, r) => r.holds u v

/-- A value and `&` after it. -/
def conj (g : Progress) (v : Int) : Progress := { g with both := some (g.joined v) }

/-- A value and `|` after it. -/
def disj (g : Progress) (v : Int) : Progress :=
  { g with either := some (g.operand v), both := none }

/-- A value and a comparison after it. -/
def compare (g : Progress) (v : Int) (r : Rel) : Progress :=
  { left := some (g.operand v, r), ok := g.verdict (g.operand v) }

/-- The value of all that waits, with its last operand. -/
def result (g : Progress) (v : Int) : Int :=
  match g.left with
  | none => g.operand v
  | some _ => if g.verdict (g.operand v) then 1 else 0

/-- A part in the place of the next operand, and the value read last. -/
def put (g : Progress) : Part → Progress × Int
  | .comparison v r n => (g.compare v r, n)
  | .value v => (g, v)

end Progress

/-- A joint after a value. -/
def join : Joint → Progress × Int → Progress
  | .conj, (g, v) => g.conj v
  | .disj, (g, v) => g.disj v

/-- One more part. -/
def step (p : Progress × Int) (part : Joint × Part) : Progress × Int :=
  (join part.1 p).put part.2

def feed (p : Progress × Int) (parts : List (Joint × Part)) : Progress × Int := parts.foldl step p

/-- The value of a sequence of parts. -/
def evaluate (first : Part) (more : List (Joint × Part)) : Int :=
  let p := feed (Progress.put {} first) more
  p.1.result p.2

/-- One or zero. -/
def IsBit (v : Int) : Prop := v = 0 ∨ v = 1

instance (v : Int) : Decidable (IsBit v) := inferInstanceAs (Decidable (v = 0 ∨ v = 1))

/-- A value in the place of an item is one or zero. -/
def Part.HasBit : Part → Prop
  | .comparison .. => True
  | .value v => IsBit v

theorem IsBit.land {a b : Int} (ha : IsBit a) (hb : IsBit b) : IsBit (Int.land a b) := by
  rcases ha with rfl | rfl <;> rcases hb with rfl | rfl <;> decide

theorem IsBit.lor {a b : Int} (ha : IsBit a) (hb : IsBit b) : IsBit (Int.lor a b) := by
  rcases ha with rfl | rfl <;> rcases hb with rfl | rfl <;> decide

/-- Before the first comparison, there are only ones and zeros. -/
structure Progress.Bits (p : Progress × Int) : Prop where
  either : p.1.left = none → ∀ b ∈ p.1.either, IsBit b
  both : p.1.left = none → ∀ b ∈ p.1.both, IsBit b
  value : p.1.left = none → IsBit p.2

namespace Progress.Bits

variable {p : Progress × Int} (h : Progress.Bits p)

include h

theorem joined (hl : p.1.left = none) : IsBit (p.1.joined p.2) := by
  cases hb : p.1.both with
  | none => simpa [Progress.joined, hb] using h.value hl
  | some b => simpa [Progress.joined, hb] using (h.both hl b hb).land (h.value hl)

theorem operand (hl : p.1.left = none) : IsBit (p.1.operand p.2) := by
  cases he : p.1.either with
  | none => simpa [Progress.operand, he] using h.joined hl
  | some b => simpa [Progress.operand, he] using (h.either hl b he).lor (h.joined hl)

theorem result : IsBit (p.1.result p.2) := by
  cases hl : p.1.left with
  | none => simpa [Progress.result, hl] using h.operand hl
  | some c =>
    rw [Progress.result, hl]
    simp only
    split
    · exact .inr rfl
    · exact .inl rfl

theorem step {c : Joint × Part} (hc : c.2.HasBit) : Progress.Bits (Expr.step p c) := by
  obtain ⟨j, c⟩ := c
  cases c with
  | comparison v r n =>
    have hsome : (Expr.step p (j, .comparison v r n)).1.left ≠ none := Option.some_ne_none _
    exact ⟨fun hl => absurd hl hsome, fun hl => absurd hl hsome, fun hl => absurd hl hsome⟩
  | value v =>
    cases j with
    | conj => exact ⟨h.either, fun hl b hb => Option.some.inj hb ▸ h.joined hl, fun _ => hc⟩
    | disj =>
      exact ⟨fun hl b hb => Option.some.inj hb ▸ h.operand hl, fun _ b hb => (nomatch hb),
        fun _ => hc⟩

theorem feed {cs : List (Joint × Part)} (hcs : ∀ c ∈ cs, c.2.HasBit) :
    Progress.Bits (Expr.feed p cs) := by
  induction cs generalizing p with
  | nil => exact h
  | cons c cs ih =>
    obtain ⟨hc, hcs⟩ := forall_mem_cons.1 hcs
    exact ih (h.step hc) hcs

end Progress.Bits

theorem isBit_evaluate {first : Part} {more : List (Joint × Part)} (hf : first.HasBit)
    (hm : ∀ c ∈ more, c.2.HasBit) : IsBit (evaluate first more) := by
  have hfirst : Progress.Bits (Progress.put {} first) := by
    cases first with
    | comparison v r n =>
      have hsome : (Progress.put {} (.comparison v r n)).1.left ≠ none := Option.some_ne_none _
      exact ⟨fun hl => absurd hl hsome, fun hl => absurd hl hsome, fun hl => absurd hl hsome⟩
    | value v => exact ⟨fun _ b hb => (nomatch hb), fun _ b hb => (nomatch hb), fun _ => hf⟩
  exact (hfirst.feed hm).result

/-- A joint between numbers, bit by bit. -/
def Joint.bits : Joint → Int → Int → Int
  | .conj => Int.land
  | .disj => Int.lor

namespace Progress

/-- With one more condition on what was found so far. -/
def under (a : Bool) (g : Progress) : Progress := { g with ok := a && g.ok }

theorem verdict_under (a : Bool) (g : Progress) (v : Int) :
    (g.under a).verdict v = (a && g.verdict v) := Bool.and_assoc ..

theorem step_under (a : Bool) (g : Progress) (v : Int) (c : Joint × Part) :
    step (g.under a, v) c = ((step (g, v) c).1.under a, (step (g, v) c).2) := by
  obtain ⟨j, c⟩ := c
  cases c with
  | value w => cases j <;> rfl
  | comparison w r n =>
    have hcompare : ∀ g : Progress, (g.under a).compare w r = (g.compare w r).under a :=
      fun g => congrArg (Progress.mk _ · none none) (verdict_under a g _)
    have hjoin : join j (g.under a, v) = (join j (g, v)).under a := by cases j <;> rfl
    have hstep : ∀ p, step p (j, .comparison w r n) = ((join j p).compare w r, (n : Int)) :=
      fun _ => rfl
    rw [hstep, hstep, hjoin, hcompare]

theorem feed_under (a : Bool) (g : Progress) (v : Int) (cs : List (Joint × Part)) :
    feed (g.under a, v) cs = ((feed (g, v) cs).1.under a, (feed (g, v) cs).2) := by
  induction cs generalizing g v with
  | nil => rfl
  | cons c cs ih =>
    have hcons : ∀ p, feed p (c :: cs) = feed (step p c) cs := fun _ => rfl
    rw [hcons, hcons, step_under, ih]

theorem left_feed {p : Progress × Int} (h : p.1.left.isSome = true) (cs : List (Joint × Part)) :
    (feed p cs).1.left.isSome = true := by
  induction cs generalizing p with
  | nil => exact h
  | cons c cs ih =>
    obtain ⟨j, c⟩ := c
    refine ih ?_
    cases c with
    | comparison => rfl
    | value => cases j <;> exact h

theorem result_under {g : Progress} (h : g.left.isSome = true) (a : Bool) (v : Int) :
    ((g.under a).result v != 0) = (a && g.result v != 0) := by
  obtain ⟨c, hc⟩ := Option.isSome_iff_exists.1 h
  have hresult : ∀ g' : Progress, g'.left = some c → (g'.result v != 0) = g'.verdict (g'.operand v) := by
    intro g' hg'
    rw [result, hg']
    cases g'.verdict (g'.operand v) <;> rfl
  rw [hresult _ hc, hresult (g.under a) hc, verdict_under]
  rfl

end Progress

theorem evaluate_comparisons (v w : Int) (r s : Rel) (n m : Nat) (j : Joint)
    (more : List (Joint × Part)) :
    (evaluate (.comparison v r n) ((j, .comparison w s m) :: more) != 0) =
      (r.holds v (j.bits n w) &&
        (feed ({ left := some (j.bits n w, s) }, m) more).1.result
          (feed ({ left := some (j.bits n w, s) }, m) more).2 != 0) := by
  have hstart : feed (Progress.put {} (.comparison v r n)) ((j, .comparison w s m) :: more) =
      feed (Progress.under (r.holds v (j.bits n w)) { left := some (j.bits n w, s) }, m) more := by
    cases j <;> simp [feed, step, join, Progress.put, Progress.under, Progress.compare,
      Progress.conj, Progress.disj, Progress.operand, Progress.joined, Progress.verdict, Joint.bits]
  rw [evaluate, hstart, Progress.feed_under, Progress.result_under (Progress.left_feed rfl more)]

/-! ## Frames and their values -/

/-- The values of what waits in a frame. -/
def Frame.progress (σ : String → Int) (f : Frame) : Progress where
  left := f.chain.map fun (c, r) => ((c.run σ).1, r)
  ok := match f.chain with
    | none => true
    | some (c, _) => (c.run σ).2
  either := f.either.map fun t => (t.run σ).1
  both := f.both.map fun t => (t.run σ).1

/-- The text is a chain of comparisons. -/
def Reading.isChain : Reading → Bool
  | .link .. => true
  | _ => false

theorem run_of_not_isChain (σ : String → Int) {a : Reading} (h : a.isChain = false) :
    a.run σ = (a.value σ, true) := by
  cases a with
  | link => cases h
  | field | number | both | either | group => rfl

section Values

variable (σ : String → Int) (f : Frame) {a : Reading} (ha : a.isChain = false)

include ha

theorem run_joined : (f.joined a).run σ = ((f.progress σ).joined (a.value σ), true) := by
  have hrun := run_of_not_isChain σ ha
  cases h : f.both <;> simp [Frame.joined, Progress.joined, Frame.progress, h, Reading.run, hrun]

theorem run_operand : (f.operand a).run σ = ((f.progress σ).operand (a.value σ), true) := by
  have hrun := run_joined σ f ha
  cases h : f.either with
  | none => simpa [Frame.operand, Progress.operand, Frame.progress, h] using hrun
  | some b => simp [Frame.operand, Progress.operand, Frame.progress, h, Reading.run, hrun]

theorem isChain_operand : (f.operand a).isChain = false := by
  cases he : f.either with
  | some b => simp [Frame.operand, he, Reading.isChain]
  | none =>
    cases hb : f.both with
    | some b => simp [Frame.operand, Frame.joined, he, hb, Reading.isChain]
    | none => simpa [Frame.operand, Frame.joined, he, hb] using ha

theorem run_close : (f.close a).run σ =
    ((f.progress σ).operand (a.value σ),
      (f.progress σ).verdict ((f.progress σ).operand (a.value σ))) := by
  have hrun := run_operand σ f ha
  cases h : f.chain with
  | none => simpa [Frame.close, Progress.verdict, Frame.progress, h] using hrun
  | some c => simp [Frame.close, Progress.verdict, Frame.progress, h, Reading.run, hrun]

theorem value_close : (f.close a).value σ = (f.progress σ).result (a.value σ) := by
  have hrun := run_close σ f ha
  cases h : f.chain with
  | none =>
    have hclose : f.close a = f.operand a := by simp [Frame.close, h]
    have hvalue := run_of_not_isChain σ (isChain_operand f ha)
    rw [← hclose, hrun] at hvalue
    have := congrArg Prod.fst hvalue
    simpa [Progress.result, Frame.progress, h] using this.symm
  | some c =>
    have hclose : f.close a = .link c.1 c.2 (f.operand a) := by simp [Frame.close, h]
    have hleft : (f.progress σ).left = some ((c.1.run σ).1, c.2) := by simp [Frame.progress, h]
    rw [hclose] at hrun ⊢
    rw [Reading.value, hrun, Progress.result, hleft]
    rfl

theorem progress_conj : (f.conj a).progress σ = (f.progress σ).conj (a.value σ) := by
  simp [Frame.conj, Progress.conj, Frame.progress, run_joined σ f ha]

theorem progress_disj : (f.disj a).progress σ = (f.progress σ).disj (a.value σ) := by
  simp [Frame.disj, Progress.disj, Frame.progress, run_operand σ f ha]

theorem progress_compare (r : Rel) :
    (f.compare a r).progress σ = (f.progress σ).compare (a.value σ) r := by
  simp [Frame.compare, Progress.compare, Frame.progress, run_close σ f ha]

end Values

/-! ## A condition along its items -/

namespace Cond

/-- An item for given values of the fields. -/
def part (σ : String → Int) : Cond → Part
  | compare x r n => .comparison (σ x.name) r n
  | e => .value (e.reading.value σ)

/-- Items for given values of the fields. -/
def parts (σ : String → Int) (items : List (Joint × Cond)) : List (Joint × Part) :=
  items.map fun (j, e) => (j, e.part σ)

end Cond

/-- What is left to be read comes from a sequence of items. -/
def Fills (σ : String → Int) (fill : Frame → Frame × Reading)
    (items : Cond × List (Joint × Cond)) : Prop :=
  ∀ f, (fill f).2.isChain = false ∧
    ((fill f).1.progress σ, (fill f).2.value σ) =
      feed ((f.progress σ).put (items.1.part σ)) (Cond.parts σ items.2)

theorem Fills.join {σ : String → Int} {fill fill' : Frame → Frame × Reading}
    {items items' : Cond × List (Joint × Cond)} (h : Fills σ fill items)
    (h' : Fills σ fill' items') (j : Joint) {next : Frame → Reading → Frame}
    (hnext : ∀ f a, a.isChain = false →
      (next f a).progress σ = Expr.join j (f.progress σ, a.value σ)) :
    Fills σ (fun f => fill' (next (fill f).1 (fill f).2))
      (items.1, items.2 ++ (j, items'.1) :: items'.2) := by
  intro f
  obtain ⟨hchain, hfeed⟩ := h f
  obtain ⟨hchain', hfeed'⟩ := h' (next (fill f).1 (fill f).2)
  refine ⟨hchain', ?_⟩
  rw [hfeed', hnext _ _ hchain, hfeed]
  simp [feed, Cond.parts, step]

theorem fills_place {σ : String → Int} {e : Cond} (h : Fills σ e.fill e.items) :
    Fills σ (e.place e.fill) (e.operandItems e.items) := by
  cases e with
  | compare | and => exact h
  | or a b => exact fun f => ⟨rfl, rfl⟩

theorem fills_items (σ : String → Int) (e : Cond) : Fills σ e.fill e.items := by
  induction e with
  | compare x r n =>
    intro f
    refine ⟨rfl, ?_⟩
    rw [Cond.fill, progress_compare σ f rfl]
    rfl
  | and a b ha hb =>
    exact (fills_place ha).join (fills_place hb) .conj fun f a ha => progress_conj σ f ha
  | or a b ha hb =>
    exact ha.join hb .disj fun f a ha => progress_disj σ f ha

theorem value_reading (σ : String → Int) (e : Cond) :
    e.reading.value σ = evaluate (e.items.1.part σ) (Cond.parts σ e.items.2) := by
  obtain ⟨hchain, hfeed⟩ := fills_items σ e {}
  have hstart : Frame.progress σ {} = {} := rfl
  rw [Cond.reading, value_close σ _ hchain, evaluate, ← hstart, ← hfeed]

/-! ## What the condition itself says -/

/-- What follows a first item says, as a conjunct of that item and as a disjunct beside it. -/
def tail : List (Joint × Bool) → Bool × Bool
  | [] => (true, false)
  | (.conj, b) :: more => (b && (tail more).1, (tail more).2)
  | (.disj, b) :: more => (true, b && (tail more).1 || (tail more).2)

/-- Items joined, where conjunction binds tighter than disjunction. -/
def total (first : Bool) (more : List (Joint × Bool)) : Bool :=
  first && (tail more).1 || (tail more).2

theorem total_disj (a : Bool) (as : List (Joint × Bool)) (b : Bool) (bs : List (Joint × Bool)) :
    total a (as ++ (.disj, b) :: bs) = (total a as || total b bs) := by
  induction as generalizing a with
  | nil => simp [total, tail]
  | cons c as ih =>
    obtain ⟨j, c⟩ := c
    have hc := ih c
    simp only [total] at hc ih ⊢
    cases j with
    | conj =>
      have hac := ih (a && c)
      simpa [tail, Bool.and_assoc] using hac
    | disj => simp [tail, hc, Bool.or_assoc]

theorem total_conj {as bs : List (Joint × Bool)} (has : ∀ c ∈ as, c.1 = .conj)
    (hbs : ∀ c ∈ bs, c.1 = .conj) (a b : Bool) :
    total a (as ++ (.conj, b) :: bs) = (total a as && total b bs) := by
  have hnone : ∀ {cs : List (Joint × Bool)}, (∀ c ∈ cs, c.1 = .conj) → (tail cs).2 = false := by
    intro cs hcs
    induction cs with
    | nil => rfl
    | cons c cs ih =>
      obtain ⟨j, c⟩ := c
      obtain rfl : j = .conj := hcs (j, c) mem_cons_self
      exact ih fun d hd => hcs d (mem_cons_of_mem _ hd)
  induction as generalizing a with
  | nil => simp [total, tail, hnone hbs]
  | cons c as ih =>
    obtain ⟨j, c⟩ := c
    obtain rfl : j = .conj := has (j, c) mem_cons_self
    have hac := ih (fun d hd => has d (mem_cons_of_mem _ hd)) (a && c)
    simpa [total, tail, Bool.and_assoc] using hac

namespace Cond

/-- What items say for given values of the fields. -/
def truths (σ : String → Int) (items : List (Joint × Cond)) : List (Joint × Bool) :=
  items.map fun (j, e) => (j, e.holds σ)

theorem conj_of_mem_operandItems (e : Cond) : ∀ i ∈ (e.operandItems e.items).2, i.1 = .conj := by
  induction e with
  | compare | or => exact fun i hi => absurd hi not_mem_nil
  | and a b ha hb =>
    exact forall_mem_append.2 ⟨ha, forall_mem_cons.2 ⟨rfl, hb⟩⟩

theorem conj_of_mem_truths {σ : String → Int} {items : List (Joint × Cond)}
    (h : ∀ i ∈ items, i.1 = .conj) : ∀ c ∈ truths σ items, c.1 = .conj := by
  intro c hc
  obtain ⟨i, hi, rfl⟩ := mem_map.1 hc
  exact h i hi

theorem holds_operandItems {σ : String → Int} {e : Cond}
    (h : e.holds σ = total (e.items.1.holds σ) (truths σ e.items.2)) :
    e.holds σ = total ((e.operandItems e.items).1.holds σ)
      (truths σ (e.operandItems e.items).2) := by
  cases e with
  | compare | and => exact h
  | or a b => simp [operandItems, total, truths, tail]

theorem holds_items (σ : String → Int) (e : Cond) :
    e.holds σ = total (e.items.1.holds σ) (truths σ e.items.2) := by
  induction e with
  | compare => simp [items, total, truths, tail]
  | and a b ha hb =>
    have hconj := total_conj (conj_of_mem_truths (σ := σ) (conj_of_mem_operandItems a))
      (conj_of_mem_truths (σ := σ) (conj_of_mem_operandItems b))
    rw [holds, holds_operandItems ha, holds_operandItems hb, ← hconj]
    simp [items, truths]
  | or a b ha hb =>
    rw [holds, ha, hb, ← total_disj]
    simp [items, truths]

end Cond

end Stimulus.Expr
