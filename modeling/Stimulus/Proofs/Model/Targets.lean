import Stimulus.Proofs.Model.Program

/-!
# Which targets are the same

The program gives every source of a run a target. A path is its root and its names, so two targets are
the same path only if the names of the models and of their directories agree.
-/

open List
open String (ofList toList_ofList)

namespace Stimulus.Path

variable {n root path : String} {ns : List String}

/-! ## Paths by their names -/

/-- A name that paths keep. -/
structure IsName (n : String) : Prop where
  slash : '/' ∉ n.toList
  ne_nil : n.toList ≠ []
  ne_dot : n ≠ "."

/-- What a path may start with. -/
def roots : List String := ["", "/", "//"]

theorem rootOf_mem (path : String) : rootOf path ∈ roots := by
  unfold rootOf
  split <;> simp [roots]

theorem IsName.keep (h : IsName n) : (!n.isEmpty && n != ".") = true := by
  have hempty : n.isEmpty = false := by
    rw [Bool.eq_false_iff]
    intro hn
    obtain rfl := String.isEmpty_iff.1 hn
    exact h.ne_nil rfl
  simp [hempty, h.ne_dot]

theorem isName_of_mem_names (h : n ∈ names path) : IsName n := by
  obtain ⟨hmem, hkeep⟩ := mem_filter.1 h
  obtain ⟨w, hw, rfl⟩ := mem_map.1 hmem
  have hslash : '/' ∉ w := Text.not_mem_of_mem_splitAux (by simp) hw
  rw [Bool.and_eq_true, Bool.not_eq_true', bne_iff_ne] at hkeep
  refine ⟨by simpa using hslash, ?_, hkeep.2⟩
  intro hnil
  rw [String.toList_eq_nil_iff] at hnil
  simp [hnil] at hkeep

theorem names_slash (path : String) : names ("/" ++ path) = names path := by
  have hsplit : Text.splitOn "/" ("/" ++ path) = "" :: Text.splitOn "/" path := by
    have hcut := @Text.splitAux_append_cons '/' [] path.toList [] (by simp)
    rw [Text.splitOn, String.toList_append, show "/".toList = ['/'] from rfl]
    exact congrArg (List.map ofList) hcut
  rw [names, hsplit]
  rfl

theorem names_join (h : ∀ n ∈ ns, IsName n) : names (Text.join "/" ns) = ns := by
  cases ns with
  | nil => simp [names, Text.join, Text.splitOn, Text.splitAux]
  | cons n ns =>
    have hslash : ∀ l ∈ ns.map String.toList, '/' ∉ l := by
      intro l hl
      obtain ⟨m, hm, rfl⟩ := mem_map.1 hl
      exact (h m (mem_cons_of_mem _ hm)).slash
    have hsplit : Text.splitOn "/" (Text.join "/" (n :: ns)) = n :: ns := by
      rw [Text.splitOn, Text.join, String.toList_intercalate, map_cons, Text.intercalate_cons]
      refine (congrArg (List.map ofList)
        (Text.splitAux_flatMap (h n mem_cons_self).slash hslash)).trans ?_
      simp [Function.comp_def]
    rw [names, hsplit, filter_eq_self]
    exact fun m hm => (h m hm).keep

theorem join_cons_ne (h : IsName n) : Text.join "/" (n :: ns) ≠ "" := by
  intro hempty
  have hnil := congrArg String.toList hempty
  rw [Text.join, String.toList_intercalate, map_cons, Text.intercalate_cons] at hnil
  exact h.ne_nil (append_eq_nil_iff.1 hnil).1

theorem ofNames_eq (root : String) (ns : List String) : ofNames root ns =
    if (root ++ Text.join "/" ns).isEmpty then "." else root ++ Text.join "/" ns := rfl

theorem ofNames_cons (root : String) (h : IsName n) :
    ofNames root (n :: ns) = root ++ Text.join "/" (n :: ns) := by
  rw [ofNames_eq, if_neg]
  simp [join_cons_ne h]

theorem names_ofNames (hroot : root ∈ roots) (h : ∀ n ∈ ns, IsName n) :
    names (ofNames root ns) = ns := by
  have hnames : names (root ++ Text.join "/" ns) = ns := by
    simp only [roots, mem_cons, not_mem_nil, or_false] at hroot
    rcases hroot with rfl | rfl | rfl
    · rw [String.empty_append, names_join h]
    · rw [names_slash, names_join h]
    · rw [show "//" = "/" ++ "/" from rfl, String.append_assoc, names_slash, names_slash,
        names_join h]
  rw [ofNames_eq]
  split
  · next hempty =>
    rw [String.isEmpty_iff.1 hempty] at hnames
    rw [← hnames]
    simp [names, Text.splitOn, Text.splitAux, Text.dropStart?]
  · exact hnames

theorem rootOf_ofNames (hroot : root ∈ roots) (h : ∀ n ∈ ns, IsName n) :
    rootOf (ofNames root ns) = root := by
  cases ns with
  | nil =>
    simp only [roots, mem_cons, not_mem_nil, or_false] at hroot
    rcases hroot with rfl | rfl | rfl <;> decide
  | cons n ns =>
    have hn := h n mem_cons_self
    obtain ⟨c, w, hcw⟩ := exists_cons_of_ne_nil hn.ne_nil
    have hc : c ≠ '/' := fun heq => hn.slash (by rw [hcw, heq]; exact mem_cons_self)
    obtain ⟨rest, hrest⟩ : ∃ rest, (Text.join "/" (n :: ns)).toList = c :: rest := by
      rw [Text.join, String.toList_intercalate, map_cons, Text.intercalate_cons, hcw]
      exact ⟨_, rfl⟩
    rw [ofNames_cons root hn, rootOf, String.toList_append, hrest]
    simp only [roots, mem_cons, not_mem_nil, or_false] at hroot
    rcases hroot with rfl | rfl | rfl <;> simp [hc]

theorem ofNames_inj {root' : String} {ms : List String} (hroot : root ∈ roots) (hroot' : root' ∈ roots)
    (hns : ∀ n ∈ ns, IsName n) (hms : ∀ n ∈ ms, IsName n) :
    ofNames root ns = ofNames root' ms ↔ root = root' ∧ ns = ms := by
  constructor
  · intro h
    have hroots := congrArg rootOf h
    have hnames := congrArg names h
    rw [rootOf_ofNames hroot hns, rootOf_ofNames hroot' hms] at hroots
    rw [names_ofNames hroot hns, names_ofNames hroot' hms] at hnames
    exact ⟨hroots, hnames⟩
  · rintro ⟨rfl, rfl⟩
    rfl

theorem tidy_ofNames (hroot : root ∈ roots) (h : ∀ n ∈ ns, IsName n) :
    tidy (ofNames root ns) = ofNames root ns := by
  rw [tidy, rootOf_ofNames hroot h, names_ofNames hroot h]

theorem isName_names (path : String) : ∀ n ∈ names path, IsName n := fun _ => isName_of_mem_names

theorem tidy_tidy (path : String) : tidy (tidy path) = tidy path :=
  tidy_ofNames (rootOf_mem path) (isName_names path)

theorem tidy_child (dir path : String) : tidy (child dir path) = child dir path := by
  unfold child
  split
  · exact tidy_ofNames (rootOf_mem dir) fun n hn =>
      (mem_append.1 hn).elim isName_of_mem_names isName_of_mem_names
  · exact tidy_tidy path

theorem isName_dropLast (path : String) : ∀ n ∈ (names path).dropLast, IsName n :=
  fun _ hn => isName_of_mem_names (dropLast_subset _ hn)

theorem parent_inj {other : String} : parent path = parent other ↔
    rootOf path = rootOf other ∧ (names path).dropLast = (names other).dropLast :=
  ofNames_inj (rootOf_mem path) (rootOf_mem other) (isName_dropLast path) (isName_dropLast other)

/-! ## A path with another extension -/

theorem isName_stem (h : names path ≠ []) {tail : String} (htail : IsEnd tail.toList) :
    IsName (stem path ++ tail) := by
  have hname : IsName (name path) := by
    rw [name, getLast?_eq_getLast_of_ne_nil h]
    exact isName_of_mem_names (getLast_mem h)
  have hend : tail.toList <:+ (stem path ++ tail).toList := by simp
  have hstem : (stem path).toList ⊆ (name path).toList := by
    unfold stem
    split
    · rw [Text.take, toList_ofList]
      exact take_subset _ _
    · exact List.Subset.refl _
  refine ⟨?_, fun hnil => ?_, (htail.not_special hend).2.1⟩
  · rw [String.toList_append, mem_append, not_or]
    exact ⟨fun hmem => hname.slash (hstem hmem), htail.slash⟩
  · have := (htail.not_special hend).1
    rw [String.toList_eq_nil_iff] at hnil
    simp [hnil] at this

theorem child_name (dir : String) (h : IsName n) :
    child dir n = ofNames (rootOf dir) (names dir ++ [n]) := by
  have hjoin : Text.join "/" [n] = n := by simp [Text.join]
  have hall : ∀ m ∈ [n], IsName m := by simpa using h
  have hnames : names n = [n] := by simpa [hjoin] using names_join hall
  have hroot : rootOf n = "" := by
    have := @rootOf_ofNames "" [n] (by simp [roots]) hall
    rwa [ofNames_cons "" h, hjoin, String.empty_append] at this
  rw [child, hroot, hnames]
  rfl

theorem withSuffix_eq (h : names path ≠ []) {tail : String} (htail : IsEnd tail.toList) :
    withSuffix path tail = ofNames (rootOf path) ((names path).dropLast ++ [stem path ++ tail]) := by
  rw [withSuffix, child_name _ (isName_stem h htail), parent,
    rootOf_ofNames (rootOf_mem path) (isName_dropLast path),
    names_ofNames (rootOf_mem path) (isName_dropLast path)]

end Stimulus.Path

namespace Stimulus.Model

variable {f g : String}

/-- The names of sources whose models have one name: the same name, and the two for which taking the
extension off gives the extension itself. -/
def SameModel (n m : String) : Prop :=
  n = m ∨ (n = ".sv" ∧ m = ".sv.sv") ∨ (n = ".sv.sv" ∧ m = ".sv")

instance (n m : String) : Decidable (SameModel n m) := inferInstanceAs (Decidable (_ ∨ _))

theorem isEnd_sv : Path.IsEnd ".sv".toList := ⟨by decide, by decide⟩

theorem isEnd_py : Path.IsEnd ".py".toList := ⟨by decide, by decide⟩

/-- The name of a source and what is left of it without the extension. A name that is only the
extension has none. -/
theorem stem_of_name {u : List Char} (h : Path.name f = ofList (u ++ ".sv".toList)) :
    Path.stem f = if u = [] then ".sv" else ofList u := by
  have htail : (u ++ ".sv".toList).reverse.takeWhile (· != '.') = ['v', 's'] := by
    simp [show ".sv".toList = ['.', 's', 'v'] from rfl]
  have hlength : (u ++ ".sv".toList).length = u.length + 3 := by simp
  unfold Path.stem Path.extensionDot?
  rw [h, toList_ofList, String.length_ofList, htail, hlength]
  by_cases hu : u = []
  · subst hu
    rfl
  · have hpos : 0 < u.length := length_pos_iff.2 hu
    have hdot : u.length + 3 - ['v', 's'].length = u.length + 1 := rfl
    simp only [hdot, if_neg hu]
    rw [if_pos ⟨by omega, by omega⟩]
    simp [Text.take]

theorem sameModel_iff (hf : ".sv".toList <:+ (Path.name f).toList)
    (hg : ".sv".toList <:+ (Path.name g).toList) :
    SameModel (Path.name f) (Path.name g) ↔ Path.stem f = Path.stem g := by
  obtain ⟨u, hu⟩ := hf
  obtain ⟨v, hv⟩ := hg
  have hu' : Path.name f = ofList (u ++ ".sv".toList) := by rw [hu, String.ofList_toList]
  have hv' : Path.name g = ofList (v ++ ".sv".toList) := by rw [hv, String.ofList_toList]
  have hshort (w : List Char) : ofList (w ++ ".sv".toList) = ".sv" ↔ w = [] := by
    rw [← String.toList_inj, toList_ofList]
    simp
  have hdouble (w : List Char) : ofList (w ++ ".sv".toList) = ".sv.sv" ↔ w = ".sv".toList := by
    rw [← String.toList_inj, toList_ofList,
      show ".sv.sv".toList = ".sv".toList ++ ".sv".toList by decide, append_left_inj]
  have hstem (w : List Char) : ofList w = ".sv" ↔ w = ".sv".toList := by
    rw [← String.toList_inj, toList_ofList]
  rw [stem_of_name hu', stem_of_name hv', SameModel, hu', hv', hshort, hdouble, hshort, hdouble,
    String.ofList_inj, append_left_inj]
  by_cases hnil : u = [] <;> by_cases hnil' : v = []
  · simp [hnil, hnil']
  · rw [if_pos hnil, if_neg hnil', eq_comm (a := ".sv"), hstem]
    simp [hnil, hnil', Ne.symm hnil']
  · rw [if_neg hnil, if_pos hnil', hstem]
    simp [hnil, hnil']
  · simp [hnil, hnil', String.ofList_inj]

/-! ## Targets -/

/-- The target of a source. -/
def target (dir? : Option String) (f : String) : String :=
  match dir? with
  | some dir => Path.child dir (Path.stem f ++ ".py")
  | none => Path.withSuffix f ".py"

theorem map_snd_targets (dir? : Option String) (files : List String) :
    (targets dir? files).map Prod.snd = files.map (target dir?) := by
  rw [targets, map_map]
  rfl

theorem names_of_sv (h : ".sv".toList <:+ f.toList) :
    Path.names f = (Path.names f).dropLast ++ [Path.name f] ∧
      ".sv".toList <:+ (Path.name f).toList := by
  obtain ⟨front, n, hnames, hn⟩ := Path.exists_last_names isEnd_sv h
  rw [Path.name, hnames]
  simpa using hn

theorem names_ne_nil_of_sv (h : ".sv".toList <:+ f.toList) : Path.names f ≠ [] := by
  rw [(names_of_sv h).1]
  simp

theorem target_some_eq_iff {dir : String} (hf : ".sv".toList <:+ f.toList)
    (hg : ".sv".toList <:+ g.toList) :
    target (some dir) f = target (some dir) g ↔ Path.stem f = Path.stem g := by
  have hname (h : String) (hh : ".sv".toList <:+ h.toList) :=
    Path.isName_stem (names_ne_nil_of_sv hh) isEnd_py
  have hall (h : String) (hh : ".sv".toList <:+ h.toList) :
      ∀ n ∈ Path.names dir ++ [Path.stem h ++ ".py"], Path.IsName n := fun n hn =>
    (mem_append.1 hn).elim Path.isName_of_mem_names fun h => mem_singleton.1 h ▸ hname _ hh
  simp only [target]
  rw [Path.child_name dir (hname f hf), Path.child_name dir (hname g hg),
    Path.ofNames_inj (Path.rootOf_mem dir) (Path.rootOf_mem dir) (hall f hf) (hall g hg)]
  simp

theorem target_none_eq_iff (hf : ".sv".toList <:+ f.toList) (hg : ".sv".toList <:+ g.toList) :
    target none f = target none g ↔ Path.parent f = Path.parent g ∧ Path.stem f = Path.stem g := by
  have hall (h : String) (hh : ".sv".toList <:+ h.toList) :
      ∀ n ∈ (Path.names h).dropLast ++ [Path.stem h ++ ".py"], Path.IsName n := fun n hn =>
    (mem_append.1 hn).elim (Path.isName_dropLast h n) fun h =>
      mem_singleton.1 h ▸ Path.isName_stem (names_ne_nil_of_sv hh) isEnd_py
  simp only [target]
  rw [Path.withSuffix_eq (names_ne_nil_of_sv hf) isEnd_py,
    Path.withSuffix_eq (names_ne_nil_of_sv hg) isEnd_py,
    Path.ofNames_inj (Path.rootOf_mem f) (Path.rootOf_mem g) (hall f hf) (hall g hg), Path.parent_inj,
    and_assoc]
  refine and_congr_right fun _ => ?_
  constructor
  · intro h
    obtain ⟨hfront, hlast⟩ := append_inj' h rfl
    exact ⟨hfront, by simpa using hlast⟩
  · rintro ⟨hfront, hlast⟩
    rw [hfront, hlast]

theorem tidy_of_mem_sources {a : Cli.Arguments} {s : Store} (h : f ∈ sources a s) :
    Path.tidy f = f := by
  unfold sources inputs at h
  split at h
  · obtain ⟨path, -, rfl⟩ := mem_map.1 h
    exact Path.tidy_tidy path
  · simp only at h
    split at h
    · unfold Store.endingIn at h
      split at h
      · rw [mem_mergeSort] at h
        obtain ⟨key, -, rfl⟩ := mem_map.1 h
        exact Path.tidy_child _ key
      · cases h
    · rw [mem_singleton.1 h]
      exact Path.tidy_tidy _

theorem eq_of_parent_name {a : Cli.Arguments} {s : Store} (hf : f ∈ sources a s) (hg : g ∈ sources a s)
    (hf' : ".sv".toList <:+ f.toList) (hg' : ".sv".toList <:+ g.toList)
    (hparent : Path.parent f = Path.parent g) (hname : Path.name f = Path.name g) : f = g := by
  obtain ⟨hroot, hfront⟩ := Path.parent_inj.1 hparent
  rw [← tidy_of_mem_sources hf, ← tidy_of_mem_sources hg, Path.tidy, Path.tidy, hroot,
    (names_of_sv hf').1, (names_of_sv hg').1, hfront, hname]

/-- No two sources get one target. In a directory that is given, no two of them may have models of one
name, whatever directories they are in. Beside the sources, only the models of `.sv` and `.sv.sv` in
one directory meet. -/
def TargetsApart : Option String → List String → Prop
  | some _, files => ∀ f ∈ files, ∀ g ∈ files, f ≠ g → ¬ SameModel (Path.name f) (Path.name g)
  | none, files => ∀ f ∈ files, ∀ g ∈ files, Path.parent f = Path.parent g →
      ¬ (Path.name f = ".sv" ∧ Path.name g = ".sv.sv")

instance : (dir? : Option String) → (files : List String) → Decidable (TargetsApart dir? files)
  | some _, files => inferInstanceAs (Decidable (∀ f ∈ files, ∀ g ∈ files, _))
  | none, files => inferInstanceAs (Decidable (∀ f ∈ files, ∀ g ∈ files, _))

/-- Different sources of classes get different targets exactly if their names keep them apart. -/
theorem sv_targets_nodup_iff {a : Cli.Arguments} {s : Store} (hnodup : (sources a s).Nodup)
    (hsv : ∀ f ∈ sources a s, Text.endsWith ".sv" f = true) :
    ((plan a s).map Prod.snd).Nodup ↔ TargetsApart (outDir? a) (sources a s) := by
  have hend : ∀ f ∈ sources a s, ".sv".toList <:+ f.toList := by
    intro f hf
    rw [← Text.endsWith_ofList, String.ofList_toList]
    exact hsv f hf
  -- targets are different exactly if no two different sources share one
  have hinj : ((plan a s).map Prod.snd).Nodup ↔ ∀ f ∈ sources a s, ∀ g ∈ sources a s, f ≠ g →
      target (outDir? a) f ≠ target (outDir? a) g := by
    rw [plan, map_snd_targets, List.nodup_map_iff_inj_on hnodup]
    exact forall₂_congr fun f _ => forall₂_congr fun g _ => not_imp_not.symm
  rw [hinj]
  have hsame {f g : String} (hf : f ∈ sources a s) (hg : g ∈ sources a s) :
      SameModel (Path.name f) (Path.name g) ↔ Path.stem f = Path.stem g :=
    sameModel_iff (names_of_sv (hend f hf)).2 (names_of_sv (hend g hg)).2
  cases outDir? a with
  | some dir =>
    refine forall₂_congr fun f hf => forall₂_congr fun g hg => forall_congr' fun _ => not_congr ?_
    rw [target_some_eq_iff (hend f hf) (hend g hg), hsame hf hg]
  | none =>
    constructor
    · rintro h f hf g hg hparent ⟨hname, hname'⟩
      have hstem := (hsame hf hg).1 (.inr (.inl ⟨hname, hname'⟩))
      refine h f hf g hg ?_ ((target_none_eq_iff (hend f hf) (hend g hg)).2 ⟨hparent, hstem⟩)
      rintro rfl
      rw [hname] at hname'
      exact absurd hname' (by decide)
    · intro h f hf g hg hne htarget
      obtain ⟨hparent, hstem⟩ := (target_none_eq_iff (hend f hf) (hend g hg)).1 htarget
      rcases (hsame hf hg).2 hstem with hname | ⟨hname, hname'⟩ | ⟨hname, hname'⟩
      · exact hne (eq_of_parent_name hf hg (hend f hf) (hend g hg) hparent hname)
      · exact h f hf g hg hparent ⟨hname, hname'⟩
      · exact h g hg f hf hparent.symm ⟨hname', hname⟩

/-- Two directories with a source of the same name, and one with both short names. -/
def twinStore : Store where
  files := [("d/a/x.sv", ""), ("d/b/x.sv", ""), ("e/.sv", ""), ("e/.sv.sv", "")]
  dirs := ["d", "d/a", "d/b", "e"]

theorem sources_twins : sources [("input", .text "d")] twinStore = ["d/a/x.sv", "d/b/x.sv"] ∧
    sources [("output", .text "out"), ("input", .text "d")] twinStore = ["d/a/x.sv", "d/b/x.sv"] ∧
    sources [("input", .text "e")] twinStore = ["e/.sv", "e/.sv.sv"] := by
  have hd {a : Cli.Arguments} (hinput : a.text? "input" = some "d") :
      sources a twinStore = ["d/a/x.sv", "d/b/x.sv"] :=
    @sources_of_dir _ _ "d" "d" _ hinput (by decide) (by decide +kernel) (by decide +kernel)
      (by decide +kernel) (by decide +kernel)
  exact ⟨hd rfl, hd rfl, @sources_of_dir _ _ "e" "e" _ rfl (by decide) (by decide +kernel)
    (by decide +kernel) (by decide +kernel) (by decide +kernel)⟩

/-- Sources of one name in two directories have different targets beside them and the same one in a
directory that is given; the two short names have the same target beside them. -/
theorem targets_of_twins :
    ((plan [("input", .text "d")] twinStore).map Prod.snd).Nodup ∧
    ¬ ((plan [("output", .text "out"), ("input", .text "d")] twinStore).map Prod.snd).Nodup ∧
    ¬ ((plan [("input", .text "e")] twinStore).map Prod.snd).Nodup := by
  obtain ⟨hbeside, hgiven, hshort⟩ := sources_twins
  refine ⟨?_, ?_, ?_⟩
  · rw [sv_targets_nodup_iff (by rw [hbeside]; decide) (by rw [hbeside]; decide),
      hbeside]
    decide +kernel
  · rw [sv_targets_nodup_iff (by rw [hgiven]; decide) (by rw [hgiven]; decide), hgiven]
    decide +kernel
  · rw [sv_targets_nodup_iff (by rw [hshort]; decide) (by rw [hshort]; decide), hshort]
    decide +kernel

end Stimulus.Model
