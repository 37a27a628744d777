import Stimulus.Csv
import Stimulus.Proofs.Text.Basic

/-!
# Tables are read as they were written

A written field either needs no quotes, and then the reader copies it, or stands in quotes, and then
every quote in it is doubled. Either way the reader leaves it with the field as it was.
-/

open List

namespace Stimulus.Csv

open Text

/-! ## Single characters -/

/-- The character can stand in a field without quotes. -/
def isBare (c : Char) : Bool := !(c == ',' || c == '"' || c == '\r' || c == '\n')

section Steps

variable {mode : Mode} {field cs w : List Char} {fields : List String} {c : Char}

attribute [local simp] readFrom

theorem readFrom_bare (hmode : mode ≠ .quoted) (hc : isBare c = true) :
    readFrom mode field fields (c :: cs) = readFrom .plain (c :: field) fields cs := by
  simp only [isBare, Bool.not_eq_true', Bool.or_eq_false_iff, beq_eq_false_iff_ne] at hc
  obtain ⟨⟨⟨hcomma, hquote⟩, hreturn⟩, hnewline⟩ := hc
  rw [readFrom]
  · cases mode <;> simp_all
  · rintro _ rfl
    exact absurd rfl hreturn
  · exact hmode

theorem readFrom_comma (hmode : mode ≠ .quoted) :
    readFrom mode field fields (',' :: cs) =
      readFrom .field [] (String.ofList field.reverse :: fields) cs := by
  cases mode <;> simp_all

theorem readFrom_lineEnd (hmode : mode ≠ .quoted) :
    readFrom mode field fields ('\r' :: '\n' :: cs) =
      (if mode = .record then [] else close field fields) :: readFrom .record [] [] cs := by
  simp [hmode]

theorem readFrom_open (hmode : mode = .record ∨ mode = .field) :
    readFrom mode field fields ('"' :: cs) = readFrom .quoted field fields cs := by
  rcases hmode with rfl | rfl <;> simp

theorem readFrom_close :
    readFrom .quoted field fields ('"' :: cs) = readFrom .quote field fields cs := by
  simp

theorem readFrom_quoteAgain :
    readFrom .quote field fields ('"' :: cs) = readFrom .quoted ('"' :: field) fields cs := by
  simp

/-- In quotes all else is copied. A carriage return and the newline after it are copied at once. -/
theorem readFrom_copy (hc : c ≠ '"') (hreturn : ∀ rest, c = '\r' → cs ≠ '\n' :: rest) :
    readFrom .quoted field fields (c :: cs) = readFrom .quoted (c :: field) fields cs := by
  rw [readFrom]
  · simp [hc]
  · exact hreturn

end Steps

/-! ## Fields -/

/-- The text with every quote doubled. -/
def doubled (w : List Char) : List Char := substitute ['"'] ['"', '"'] w

theorem doubled_quote (w : List Char) : doubled ('"' :: w) = '"' :: '"' :: doubled w :=
  @substitute_hit w _ ['"'] (by simp)

theorem doubled_other {c : Char} (hc : c ≠ '"') (w : List Char) : doubled (c :: w) = c :: doubled w :=
  substitute_skip (by simpa using hc.symm)

theorem toList_writeField (s : String) : (writeField s).toList =
    if needsQuotes s then '"' :: (doubled s.toList ++ ['"']) else s.toList := by
  unfold writeField
  split
  · simp [toList_replace, doubled]
  · rfl

theorem isBare_of_not_needsQuotes {s : String} (h : needsQuotes s = false) {c : Char}
    (hc : c ∈ s.toList) : isBare c = true := by
  rw [needsQuotes, any_eq_false] at h
  simpa [isBare] using h c hc

section Fields

variable {field w cs : List Char} {fields : List String} {mode : Mode}

/-- A field without quotes is copied; what is under way counts as begun. -/
theorem readFrom_plain (hw : ∀ c ∈ w, isBare c = true) :
    readFrom .plain field fields (w ++ cs) = readFrom .plain (w.reverse ++ field) fields cs := by
  induction w generalizing field with
  | nil => rfl
  | cons c w ih =>
    obtain ⟨hc, hw⟩ := forall_mem_cons.1 hw
    rw [cons_append, readFrom_bare (by decide) hc, ih hw]
    simp

theorem readFrom_doubled (w field : List Char) (fields : List String) (cs : List Char) :
    readFrom .quoted field fields (doubled w ++ '"' :: cs) =
      readFrom .quote (w.reverse ++ field) fields cs := by
  -- The reader looks one character ahead of a carriage return, so the induction is on the length.
  induction hlen : w.length using Nat.strongRecOn generalizing w field with
  | ind n ih =>
    subst hlen
    cases w with
    | nil => simpa [doubled] using readFrom_close
    | cons c w =>
      by_cases hc : c = '"'
      · subst hc
        rw [doubled_quote, cons_append, cons_append, readFrom_close, readFrom_quoteAgain,
          ih w.length (by simp) w _ rfl]
        simp
      · by_cases hpair : ∃ v, c = '\r' ∧ w = '\n' :: v
        · obtain ⟨v, rfl, rfl⟩ := hpair
          rw [doubled_other hc, doubled_other (by decide), cons_append, cons_append,
            readFrom, if_pos rfl, ih v.length (by simp only [length_cons]; omega) v
              _ rfl]
          simp
        · rw [doubled_other hc, cons_append, readFrom_copy hc, ih w.length (by simp) w _ rfl]
          · simp
          · rintro rest rfl hrest
            refine hpair ?_
            cases w with
            | nil => simp [doubled] at hrest
            | cons d w =>
              by_cases hd : d = '"'
              · subst hd
                rw [doubled_quote] at hrest
                simp at hrest
              · rw [doubled_other hd] at hrest
                obtain ⟨rfl, -⟩ := List.cons.inj hrest
                exact ⟨w, rfl, rfl⟩

/-- Where the reader stands after a written field: it is never in quotes, and before a record only
if nothing was written. -/
theorem readFrom_written (fields : List String) (s : String) (hmode : mode = .record ∨ mode = .field) :
    ∃ after, after ≠ .quoted ∧ (after = .record → mode = .record ∧ (writeField s).toList = []) ∧
      ∀ cs, readFrom mode [] fields ((writeField s).toList ++ cs) =
        readFrom after s.toList.reverse fields cs := by
  rw [toList_writeField]
  cases hneeds : needsQuotes s with
  | true =>
    refine ⟨.quote, by decide, nofun, fun cs => ?_⟩
    rw [if_pos rfl, cons_append, append_assoc, readFrom_open hmode]
    simpa using readFrom_doubled s.toList [] fields cs
  | false =>
    have hbare := fun c => isBare_of_not_needsQuotes hneeds (c := c)
    simp only [Bool.false_eq_true, if_false]
    cases hs : s.toList with
    | nil =>
      refine ⟨mode, ?_, fun h => ⟨h, rfl⟩, fun cs => rfl⟩
      rcases hmode with rfl | rfl <;> decide
    | cons c w =>
      rw [hs] at hbare
      refine ⟨.plain, by decide, nofun, fun cs => ?_⟩
      have hnot : mode ≠ .quoted := by rcases hmode with rfl | rfl <;> decide
      rw [cons_append, readFrom_bare hnot (hbare c (by simp)),
        readFrom_plain fun d hd => hbare d (by simp [hd])]
      simp

theorem readFrom_field_comma (s : String) (hmode : mode = .record ∨ mode = .field) :
    readFrom mode [] fields ((writeField s).toList ++ ',' :: cs) =
      readFrom .field [] (s :: fields) cs := by
  obtain ⟨after, hafter, -, hread⟩ := readFrom_written fields s hmode
  rw [hread, readFrom_comma hafter]
  simp

theorem readFrom_field_end (s : String) (hmode : mode = .record ∨ mode = .field)
    (hfull : mode = .record → (writeField s).toList ≠ []) :
    readFrom mode [] fields ((writeField s).toList ++ '\r' :: '\n' :: cs) =
      (s :: fields).reverse :: readFrom .record [] [] cs := by
  obtain ⟨after, hafter, hrecord, hread⟩ := readFrom_written fields s hmode
  have hbegun : after ≠ .record := fun h => hfull (hrecord h).1 (hrecord h).2
  rw [hread, readFrom_lineEnd hafter, if_neg hbegun]
  simp [close]

end Fields

/-! ## Records -/

theorem toList_join_fields (s : String) (rest : List String) :
    (join "," ((s :: rest).map writeField)).toList =
      (writeField s).toList ++ rest.flatMap fun t => ',' :: (writeField t).toList := by
  rw [join, String.toList_intercalate, map_map, map_cons, intercalate_cons, flatMap_map]
  rfl

theorem readFrom_fields (fields : List String) (s : String) (rest : List String) (cs : List Char)
    (mode : Mode) (hmode : mode = .record ∨ mode = .field)
    (hfull : mode = .record → rest = [] → (writeField s).toList ≠ []) :
    readFrom mode [] fields ((writeField s).toList
        ++ (rest.flatMap fun t => ',' :: (writeField t).toList) ++ '\r' :: '\n' :: cs) =
      (fields.reverse ++ s :: rest) :: readFrom .record [] [] cs := by
  induction rest generalizing fields s mode with
  | nil => simpa using readFrom_field_end s hmode fun h => hfull h rfl
  | cons t rest ih =>
    rw [flatMap_cons, append_assoc, cons_append, cons_append,
      readFrom_field_comma s hmode, ih (s :: fields) t .field (.inr rfl) nofun]
    simp

theorem readFrom_record (fields : List String) (cs : List Char) :
    readFrom .record [] [] ((writeRecord fields).toList ++ cs) =
      fields :: readFrom .record [] [] cs := by
  unfold writeRecord
  split
  · have hquotes : "\"\"\r\n".toList ++ cs = '"' :: '"' :: '\r' :: '\n' :: cs := rfl
    rw [hquotes, readFrom_open (.inl rfl), readFrom_close, readFrom_lineEnd (by decide)]
    rfl
  · next hsingle =>
    rw [String.toList_append, append_assoc]
    cases fields with
    | nil => exact readFrom_lineEnd (by decide)
    | cons s rest =>
      rw [toList_join_fields]
      refine readFrom_fields [] s rest cs .record (.inl rfl) fun _ hrest hempty => ?_
      subst hrest
      rw [toList_writeField] at hempty
      split at hempty
      · cases hempty
      · rw [String.toList_eq_nil_iff.1 hempty] at hsingle
        exact hsingle rfl

theorem read_write (records : List (List String)) : read (write records) = records := by
  rw [read, write, String.toList_join]
  induction records with
  | nil => rfl
  | cons fields records ih => rw [map_cons, flatMap_cons, readFrom_record, ih]

theorem rows_write (header : List String) {records : List (List String)}
    (h : ∀ r ∈ records, r ≠ []) :
    rows (write (header :: records)) = records.map fun fields => { header, fields } := by
  rw [rows, read_write]
  have hall : (records.filter fun r => !r.isEmpty) = records :=
    filter_eq_self.2 fun r hr => by simpa using h r hr
  simp [hall]

end Stimulus.Csv
