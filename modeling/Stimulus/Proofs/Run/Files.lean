import Stimulus.Proofs.Named
import Stimulus.Proofs.Outcome
import Stimulus.Proofs.Run.Basic
import Stimulus.Proofs.Text.Lines

/-!
# What files hold

Every operation on files goes through the file that a path leads to. Which file that is does not
depend on the texts of the files, so a program that only writes files finds each path where it was.
-/

open List

namespace Stimulus.Store

variable {s : Store} {key other path text : String}

/-! ## Texts of files -/

theorem get?_put (s : Store) (key text other : String) :
    (s.put key text).get? other = if other = key then some text else s.get? other := by
  have hfiles : (s.put key text).files = Named.assign s.files key text := by
    rw [put, apply_ite Store.files]
    rfl
  rw [get?, hfiles, Named.lookup_assign]
  rfl

theorem get?_put_self (s : Store) (key text : String) : (s.put key text).get? key = some text := by
  rw [get?_put, if_pos rfl]

theorem get?_put_of_ne (h : other ≠ key) : (s.put key text).get? other = s.get? other := by
  rw [get?_put, if_neg h]

@[simp] theorem hasDir_put (s : Store) (key text dir : String) :
    (s.put key text).hasDir dir = s.hasDir dir := by
  unfold put
  split <;> rfl

/-! ## The file of a path -/

def Place.key? : Outcome Place → Option String
  | .ok (.file key) | .ok (.free key) => some key
  | _ => none

def key? (s : Store) (path : String) : Option String := Place.key? (s.place path)

theorem key?_follow_put (s : Store) (key text path : String) (above names : List String) :
    Place.key? ((s.put key text).follow path above names) =
      Place.key? (s.follow path above names) := by
  induction names generalizing above with
  | nil => rfl
  | cons n rest ih =>
    unfold follow
    by_cases hskip : (n.isEmpty || decide (n = ".")) = true
    · rw [if_pos hskip, if_pos hskip, ih]
    · rw [if_neg hskip, if_neg hskip]
      by_cases hup : n = ".."
      · rw [if_pos hup, if_pos hup]
        cases above with
        | nil => rfl
        | cons _ up => exact ih up
      · rw [if_neg hup, if_neg hup]
        simp only [hasDir_put]
        split
        · exact ih (n :: above)
        · -- The name is the last one, or nothing stands behind it: a file there has no other key.
          have hlast (t : Store) : Place.key? (
              if (t.get? (Text.join "/" (n :: above).reverse)).isSome then
                if rest.isEmpty then .ok (.file (Text.join "/" (n :: above).reverse))
                else .error (.notDirectory path)
              else if rest.isEmpty then .ok (.free (Text.join "/" (n :: above).reverse))
              else if rest.all (·.isEmpty) then .ok .vacant else .error (.noSuchFile path)) =
              if rest.isEmpty then some (Text.join "/" (n :: above).reverse) else none := by
            split
            · split <;> rfl
            · split
              · rfl
              · split <;> rfl
          rw [hlast, hlast]

@[simp] theorem key?_put (s : Store) (key text path : String) :
    (s.put key text).key? path = s.key? path := by
  unfold key? place
  split
  · rfl
  · split
    · split
      · exact key?_follow_put s key text path [] _
      · rfl
    · exact key?_follow_put s key text path [] _

/-- A file that is found has a text, and one that could be made has none. -/
private def Agrees (s : Store) : Outcome Place → Prop
  | .ok (.file key) => (s.get? key).isSome = true
  | .ok (.free key) => s.get? key = none
  | _ => True

private theorem agrees_follow (s : Store) (path : String) (above names : List String) :
    s.Agrees (s.follow path above names) := by
  fun_induction follow s path above names with
  | case6 _ _ _ _ _ _ _ hfile => exact hfile
  | case8 _ _ _ _ _ _ _ hfile => simpa [Agrees] using hfile
  | case2 => assumption
  | case4 => assumption
  | case5 => assumption
  | _ => trivial

private theorem agrees_place (s : Store) (path : String) : s.Agrees (s.place path) := by
  unfold place
  split
  · trivial
  · split
    · split
      · exact agrees_follow s path [] _
      · trivial
    · exact agrees_follow s path [] _

theorem place_of_key (h : s.key? path = some key) :
    s.place path = if (s.get? key).isSome then .ok (.file key) else .ok (.free key) := by
  have hagrees := agrees_place s path
  unfold key? at h
  cases hplace : s.place path with
  | error e => rw [hplace] at h; cases h
  | ok p =>
    rw [hplace] at h hagrees
    cases p with
    | dir => cases h
    | vacant => cases h
    | file k =>
      obtain rfl := Option.some.inj h
      have : (s.get? k).isSome = true := hagrees
      rw [if_pos this]
    | free k =>
      obtain rfl := Option.some.inj h
      have : s.get? k = none := hagrees
      simp [this]

theorem exists_key_of_isFile (h : s.isFile path = true) : ∃ key, s.key? path = some key := by
  unfold isFile at h
  split at h
  · next key hplace => exact ⟨key, by rw [key?, hplace]; rfl⟩
  · cases h

theorem exists_of_isFile (h : s.isFile path = true) : s.exists path = true := by
  unfold isFile at h
  unfold «exists»
  split at h
  · next hplace => rw [hplace]
  · cases h

/-! ## Reading and writing -/

theorem readRaw_of_key (h : s.key? path = some key) :
    s.readRaw path = match s.get? key with
      | some text => .ok text
      | none => .error (.noSuchFile path) := by
  rw [readRaw, place_of_key h]
  cases hget : s.get? key with
  | none => rfl
  | some text => simp [hget, pure, Except.pure]

theorem write_of_key (h : s.key? path = some key) (text : String) :
    s.write path text = .ok (s.put key text) := by
  rw [write, place_of_key h]
  split <;> rfl

theorem exists_key_of_write {t : Store} (h : s.write path text = .ok t) :
    ∃ key, s.key? path = some key ∧ t = s.put key text := by
  obtain ⟨p, hplace, h⟩ := Outcome.bind_eq_ok.1 h
  cases p with
  | dir => cases h
  | vacant => cases h
  | file key => exact ⟨key, by rw [key?, hplace]; rfl, (Except.ok.inj h).symm⟩
  | free key => exact ⟨key, by rw [key?, hplace]; rfl, (Except.ok.inj h).symm⟩

theorem readRaw_write {t : Store} (h : s.write path text = .ok t) : t.readRaw path = .ok text := by
  obtain ⟨key, hkey, rfl⟩ := exists_key_of_write h
  have hkey' : (s.put key text).key? path = some key := by simpa using hkey
  rw [readRaw_of_key hkey', get?_put_self]

theorem exists_of_readRaw (h : s.readRaw path = .ok text) : s.exists path = true := by
  obtain ⟨p, hplace, h⟩ := Outcome.bind_eq_ok.1 h
  cases p with
  | dir => cases h
  | vacant => cases h
  | free key => cases h
  | file key => rw [«exists», hplace]

theorem exists_of_read (h : s.read path = .ok text) : s.exists path = true := by
  obtain ⟨raw, hraw, -⟩ := Outcome.map_eq_ok.1 h
  exact exists_of_readRaw hraw

theorem exists_key_of_readRaw (h : s.readRaw path = .ok text) : ∃ key, s.key? path = some key := by
  obtain ⟨p, hplace, h⟩ := Outcome.bind_eq_ok.1 h
  cases p with
  | dir => cases h
  | vacant => cases h
  | free => cases h
  | file key => exact ⟨key, by rw [key?, hplace]; rfl⟩

/-! ## Making directories -/

@[simp] theorem get?_putDir (s : Store) (dir key : String) : (s.putDir dir).get? key = s.get? key := by
  unfold putDir
  split <;> rfl

theorem hasDir_putDir (s : Store) (dir key : String) :
    (s.putDir dir).hasDir key = (s.hasDir key || decide (key = dir)) := by
  unfold putDir
  split
  · next h =>
    by_cases hsame : key = dir
    · simp [hsame, h]
    · simp [hsame]
  · simp [hasDir, Bool.or_assoc]

theorem follow_putDir {dir : String} (hnew : s.get? dir = none) {above names : List String}
    (h : s.follow path above names = .ok (.file key)) :
    (s.putDir dir).follow path above names = .ok (.file key) := by
  induction names generalizing above with
  | nil => cases h
  | cons n rest ih =>
    unfold follow at h ⊢
    split
    · next hskip =>
      rw [if_pos hskip] at h
      exact ih h
    · next hskip =>
      rw [if_neg hskip] at h
      split
      · next hup =>
        rw [if_pos hup] at h
        cases above with
        | nil => cases h
        | cons _ up => exact ih h
      · next hup =>
        rw [if_neg hup] at h
        simp only [hasDir_putDir, get?_putDir] at h ⊢
        generalize Text.join "/" (n :: above).reverse = here at h ⊢
        by_cases hdir : s.hasDir here = true
        · rw [if_pos hdir] at h
          rw [if_pos (by simp [hdir])]
          exact ih h
        · rw [if_neg hdir] at h
          have hne : (s.get? here).isSome = true → here ≠ dir := by
            rintro hfile rfl
            rw [hnew] at hfile
            cases hfile
          by_cases hfile : (s.get? here).isSome = true
          · rw [if_pos hfile] at h
            rw [if_neg (by simpa [hdir] using hne hfile), if_pos hfile]
            exact h
          · rw [if_neg hfile] at h
            repeat' split at h
            all_goals cases h

theorem place_putDir {dir : String} (hnew : s.get? dir = none) (h : s.place path = .ok (.file key)) :
    (s.putDir dir).place path = .ok (.file key) := by
  unfold place at h ⊢
  split
  · next hempty =>
    rw [if_pos hempty] at h
    cases h
  · next hempty =>
    rw [if_neg hempty] at h
    split
    · next habsolute =>
      rw [if_pos habsolute] at h
      split at h
      · exact follow_putDir hnew h
      · cases h
    · next habsolute =>
      rw [if_neg habsolute] at h
      exact follow_putDir hnew h

/-- The store has the files of another one, and maybe more directories. -/
structure Extends (t s : Store) : Prop where
  get? : ∀ key, t.get? key = s.get? key
  place : ∀ {path key}, s.place path = .ok (.file key) → t.place path = .ok (.file key)

theorem extends_makeFrom {t : Store} {above names : List String}
    (h : s.makeFrom path above names = .ok t) : t.Extends s := by
  induction names generalizing s above with
  | nil =>
    obtain rfl := Except.ok.inj h
    exact ⟨fun _ => rfl, id⟩
  | cons n rest ih =>
    unfold makeFrom at h
    simp only at h
    split at h
    · exact ih h
    · split at h
      · cases h
      · next hnew =>
        rw [Option.not_isSome_iff_eq_none] at hnew
        have hrest := ih h
        exact ⟨fun key => (hrest.get? key).trans (get?_putDir s _ key),
          fun hplace => hrest.place (place_putDir hnew hplace)⟩

theorem extends_makeDirs {t : Store} (h : s.makeDirs path = .ok t) : t.Extends s := by
  unfold makeDirs at h
  split at h
  · split at h
    · cases h
    · exact extends_makeFrom h
  · cases h

section Extends

variable {t : Store} (h : t.Extends s) (hfile : s.isFile path = true)

include h hfile

theorem Extends.place_eq : t.place path = s.place path := by
  unfold isFile at hfile
  split at hfile
  · next key hplace => rw [hplace, h.place hplace]
  · cases hfile

theorem Extends.isFile_eq : t.isFile path = s.isFile path := by
  rw [isFile, isFile, h.place_eq hfile]

theorem Extends.read_eq : t.read path = s.read path := by
  rw [Store.read, Store.read, readRaw, readRaw, h.place_eq hfile]
  congr 1
  cases s.place path with
  | error e => rfl
  | ok p =>
    cases p with
    | file key => exact congrArg (fun text? : Option String => Except.ok (text?.getD "")) (h.get? key)
    | dir => rfl
    | free => rfl
    | vacant => rfl

end Extends

end Stimulus.Store

/-!
## The ends of paths

A path that ends in an extension leads to a file whose name does so too.
-/

namespace Stimulus

/-- A text at the end of a name: it has no slash, and a name that ends in it is none of those that
stand for a directory. -/
structure Path.IsEnd (tail : List Char) : Prop where
  slash : '/' ∉ tail
  dots : ¬ tail <:+ "..".toList

namespace Path

variable {tail : List Char} {path root n : String} {front : List String}

theorem IsEnd.not_special (h : IsEnd tail) (hn : tail <:+ n.toList) :
    n.isEmpty = false ∧ n ≠ "." ∧ n ≠ ".." := by
  refine ⟨?_, ?_, ?_⟩
  · rw [Bool.eq_false_iff]
    intro hempty
    obtain rfl := String.isEmpty_iff.1 hempty
    exact h.dots (hn.trans (by simp))
  · rintro rfl
    exact h.dots (hn.trans (by decide))
  · rintro rfl
    exact h.dots hn

theorem exists_last_splitOn (h : IsEnd tail) (hpath : tail <:+ path.toList) :
    ∃ front n, Text.splitOn "/" path = front ++ [n] ∧ tail <:+ n.toList := by
  obtain ⟨front, last, hsplit, hlast⟩ :=
    @Text.exists_last_splitAux _ path.toList [] _ h.slash (by simpa using hpath)
  refine ⟨front.map String.ofList, String.ofList last, ?_, by simpa using hlast⟩
  rw [Text.splitOn, show "/".toList = ['/'] from rfl, hsplit]
  simp

theorem exists_last_names (h : IsEnd tail) (hpath : tail <:+ path.toList) :
    ∃ front n, names path = front ++ [n] ∧ tail <:+ n.toList := by
  obtain ⟨front, n, hsplit, hn⟩ := exists_last_splitOn h hpath
  obtain ⟨hempty, hdot, -⟩ := h.not_special hn
  refine ⟨front.filter fun n => !n.isEmpty && n != ".", n, ?_, hn⟩
  rw [names, hsplit, filter_append]
  simp [hempty, hdot]

theorem suffix_join (front : List String) (n : String) :
    n.toList <:+ (Text.join "/" (front ++ [n])).toList := by
  rw [Text.join, String.toList_intercalate, map_append, map_singleton]
  induction front.map String.toList with
  | nil => simp
  | cons x xs ih =>
    rw [cons_append, intercalate_cons_of_ne_nil (by simp)]
    exact ih.trans (suffix_append _ _)

theorem suffix_ofNames (h : IsEnd tail) (hn : tail <:+ n.toList) :
    tail <:+ (ofNames root (front ++ [n])).toList := by
  have hpath : tail <:+ (root ++ Text.join "/" (front ++ [n])).toList := by
    rw [String.toList_append]
    exact (hn.trans (suffix_join front n)).trans (suffix_append _ _)
  unfold ofNames
  rw [if_neg]
  · exact hpath
  · simp [(h.not_special hpath).1]

theorem suffix_tidy (h : IsEnd tail) (hpath : tail <:+ path.toList) : tail <:+ (tidy path).toList := by
  obtain ⟨front, n, hnames, hn⟩ := exists_last_names h hpath
  rw [tidy, hnames]
  exact suffix_ofNames h hn

theorem suffix_child (h : IsEnd tail) (dir : String) (hpath : tail <:+ path.toList) :
    tail <:+ (child dir path).toList := by
  unfold child
  split
  · obtain ⟨front, n, hnames, hn⟩ := exists_last_names h hpath
    rw [hnames, ← append_assoc]
    exact suffix_ofNames h hn
  · exact suffix_tidy h hpath

end Path

namespace Store

variable {s : Store} {tail : List Char} {path key : String}

theorem suffix_follow (h : Path.IsEnd tail) (above front : List String) {n : String}
    (hn : tail <:+ n.toList) (hkey : Place.key? (s.follow path above (front ++ [n])) = some key) :
    tail <:+ key.toList := by
  obtain ⟨hempty, hdot, hup⟩ := h.not_special hn
  induction front generalizing above with
  | nil =>
    rw [nil_append] at hkey
    unfold follow at hkey
    simp only [hempty, hdot, hup, decide_false, Bool.or_self, Bool.false_eq_true, if_false,
      isEmpty_nil, if_true, follow] at hkey
    have hlast : key = Text.join "/" (n :: above).reverse := by
      repeat' split at hkey
      · cases hkey
      · exact (Option.some.inj hkey).symm
      · exact (Option.some.inj hkey).symm
    rw [hlast, reverse_cons]
    exact hn.trans (Path.suffix_join _ _)
  | cons m front ih =>
    rw [cons_append] at hkey
    unfold follow at hkey
    split at hkey
    · exact ih above hkey
    · split at hkey
      · split at hkey
        · cases hkey
        · next up => exact ih up hkey
      · simp only at hkey
        split at hkey
        · exact ih _ hkey
        · -- the names behind are not all empty, so nothing could be made here
          have hbehind : (front ++ [n]).isEmpty = false := by simp
          simp only [hbehind, Bool.false_eq_true, if_false] at hkey
          repeat' split at hkey
          all_goals cases hkey

theorem suffix_key (h : Path.IsEnd tail) (hpath : tail <:+ path.toList)
    (hkey : s.key? path = some key) : tail <:+ key.toList := by
  unfold key? place at hkey
  split at hkey
  · cases hkey
  split at hkey
  · split at hkey
    · next rest hrest =>
      have htidy := Path.suffix_tidy h hpath
      have hwhole := Text.dropStart?_eq_some.1 hrest
      rcases eq_nil_or_concat rest with rfl | ⟨r, c, rfl⟩
      · -- the path of the working directory itself
        rw [show Text.splitOn "/" (String.ofList [].dropLast) = [""] by decide +kernel] at hkey
        cases hkey
      · rw [String.toList_append, String.toList_append, concat_eq_append, ← append_assoc]
          at hwhole
        obtain ⟨hinner, -⟩ := append_inj' hwhole rfl
        have hr : tail <:+ r := by
          refine Text.suffix_of_suffix_append_cons (u := Path.home.toList) h.slash ?_
          rw [hinner] at htidy
          simpa using htidy
        rw [concat_eq_append, dropLast_concat] at hkey
        obtain ⟨front, n, hsplit, hn⟩ :=
          @Path.exists_last_splitOn _ (String.ofList r) h (by simpa using hr)
        rw [hsplit] at hkey
        exact suffix_follow h [] front hn hkey
    · cases hkey
  · obtain ⟨front, n, hsplit, hn⟩ := Path.exists_last_splitOn h hpath
    rw [hsplit] at hkey
    exact suffix_follow h [] front hn hkey

end Store

end Stimulus
