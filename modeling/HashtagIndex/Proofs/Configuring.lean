import HashtagIndex.Proofs.Acyclic
import HashtagIndex.Proofs.Lowering

/-!
# `Proofs.Configuring` — settings that are accepted stay as they are

Values are brought into a normal form: extensions are trimmed, made small and given a dot, and each is kept once;
names of directories are trimmed; the root is resolved (`normal_of_ofArguments`). A value in normal form is left
alone by its rule. So settings that were accepted are accepted again as they are, whether they are given as
arguments, or written to the environment with commas between the items of a list and read from there
(`configuration_settles`). What was read from there holds no comma, and lower-casing does not bring one in.

That the root is left alone takes a disk on which resolving what was resolved changes nothing.

## Contents
- `mem_trimmed`, `trimmedList_ofTexts`, `trimmedList_commaSeparated`: lists of trimmed values.
- `Dotted`, `dotted_dotted`, `dotted_eq_self`: extensions.
- `argument_eq_ok`, `Settings.Normal`, `normal_of_ofArguments`: what is accepted is in normal form.
- `Settings.written`, `Settings.writeTo`, `NoCommas`, `noCommas_of_ofEnvironment`: the environment.
- `ConfigurationSettles`, `configuration_settles`, and a folder that is reached through a link.
-/

namespace HashtagIndex

/-- A trimmed text with something in it. -/
def Trimmed (t : Text) : Prop := t ≠ [] ∧ t.trim = t

instance (t : Text) : Decidable (Trimmed t) := inferInstanceAs (Decidable (_ ∧ _))

/-- An extension in normal form: behind a dot, without blanks at its end, in small letters. -/
structure Dotted (e : Text) : Prop where
  dot : e.head? = some '.'
  trimmed : e.trim = e
  lower : e.lower = e

instance (e : Text) : Decidable (Dotted e) :=
  decidable_of_iff (e.head? = some '.' ∧ e.trim = e ∧ e.lower = e)
    ⟨fun ⟨hdot, htrim, hlower⟩ => ⟨hdot, htrim, hlower⟩, fun h => ⟨h.dot, h.trimmed, h.lower⟩⟩

theorem Dotted.toTrimmed {e : Text} (he : Dotted e) : Trimmed e := by
  refine ⟨?_, he.trimmed⟩
  rintro rfl
  cases he.dot

namespace Settings

variable {d : Disk} {s : Settings}

/-! ## Lists of trimmed values -/

theorem isTruthy_ofText {t : Text} : (Json.ofText t).isTruthy = true ↔ t ≠ [] := by
  simp [Json.ofText, Json.isTruthy]

/-- Trimmed values are what is left of texts, and something is left of each. -/
theorem mem_trimmed {js : List Json} {ts : List Text} (h : trimmed js = .ok ts) {t : Text} (ht : t ∈ ts) :
    Trimmed t ∧ ∃ str, .str str ∈ js ∧ t = Text.trim str.toList := by
  induction js generalizing ts with
  | nil =>
    obtain rfl := Except.ok.inj h
    exact absurd ht List.not_mem_nil
  | cons j rest ih =>
    have hrest : ∀ {ts' : List Text}, trimmed rest = .ok ts' → t ∈ ts' →
        Trimmed t ∧ ∃ str, .str str ∈ j :: rest ∧ t = Text.trim str.toList := by
      intro ts' hts' hmem
      obtain ⟨htrimmed, str, hstr, heq⟩ := ih hts' hmem
      exact ⟨htrimmed, str, List.mem_cons_of_mem _ hstr, heq⟩
    unfold trimmed at h
    split at h
    · exact hrest h ht
    · split at h
      · next str _ =>
        obtain ⟨others, hothers, h⟩ := bind_eq_ok.mp h
        obtain rfl := Except.ok.inj h
        split at ht
        · exact hrest hothers ht
        · next hne =>
          rcases List.mem_cons.mp ht with rfl | ht
          · exact ⟨⟨hne, trim_trim _⟩, str, List.mem_cons_self, rfl⟩
          · exact hrest hothers ht
      · cases h

/-- Trimmed values stay as they are. -/
theorem trimmed_map_ofText {ts : List Text} (h : ∀ t ∈ ts, Trimmed t) : trimmed (ts.map .ofText) = .ok ts := by
  induction ts with
  | nil => rfl
  | cons t rest ih =>
    obtain ⟨⟨hne, htrim⟩, hrest⟩ := List.forall_mem_cons.mp h
    have htruthy : (!(Json.ofText t).isTruthy) = false := by simp [isTruthy_ofText.mpr hne]
    unfold Json.ofText at htruthy
    rw [List.map_cons, Json.ofText, trimmed, htruthy, if_neg Bool.false_ne_true]
    simp only [ih hrest, String.toList_ofList, htrim]
    show Except.ok (if t = [] then rest else t :: rest) = _
    rw [if_neg hne]

theorem mem_trimmedList {j : Json} {ts : List Text} (h : trimmedList j = .ok ts) {t : Text} (ht : t ∈ ts) :
    Trimmed t := by
  obtain ⟨js, -, htrimmed⟩ := bind_eq_ok.mp h
  exact (mem_trimmed htrimmed ht).1

theorem trimmedList_ofTexts {ts : List Text} (h : ∀ t ∈ ts, Trimmed t) : trimmedList (.ofTexts ts) = .ok ts :=
  trimmed_map_ofText h

/-- Trimmed values without commas can be written with commas between them. -/
theorem trimmedList_commaSeparated {ts : List Text} (h : ∀ t ∈ ts, Trimmed t) (hcomma : ∀ t ∈ ts, ',' ∉ t) :
    trimmedList (.str (commaSeparated ts)) = .ok ts := by
  show trimmed (((String.ofList (List.intercalate [','] ts)).toList.splitOn ',').map .ofText) = _
  rw [String.toList_ofList]
  by_cases hts : ts = []
  · subst hts
    rfl
  · rw [List.splitOn_intercalate ',' hcomma hts]
    exact trimmed_map_ofText h

/-- What is read from between commas holds none. -/
theorem comma_not_mem_of_trimmedList {str : String} {ts : List Text} (h : trimmedList (.str str) = .ok ts)
    {t : Text} (ht : t ∈ ts) : ',' ∉ t := by
  obtain ⟨-, u, hu, rfl⟩ := mem_trimmed h ht
  obtain ⟨v, hv, heq⟩ := List.mem_map.mp hu
  obtain rfl : String.ofList v = u := by cases heq; rfl
  rw [String.toList_ofList]
  exact fun hmem => not_mem_of_mem_splitOn hv ((trim_sublist v).mem hmem)

/-! ## Extensions -/

/-- **Trimmed text becomes an extension in normal form.** -/
theorem dotted_dotted {t : Text} (ht : Trimmed t) : Dotted (dotted t) := by
  obtain ⟨hne, htrim⟩ := ht
  have hdot : (dotted t).head? = some '.' := by
    unfold dotted
    simp only
    split
    · assumption
    · rfl
  have hsmall : ∀ c ∈ dotted t, IsSmall c := by
    have hdotsmall : IsSmall '.' := by decide +kernel
    unfold dotted
    simp only
    split
    · exact fun c => isSmall_of_mem_lower
    · exact List.forall_mem_cons.mpr ⟨hdotsmall, fun c => isSmall_of_mem_lower⟩
  refine ⟨hdot, ?_, lower_of_isSmall hsmall⟩
  -- the last character is no blank, because that of the trimmed text is none
  obtain ⟨c, c', hlast, hlast', hkept⟩ := getLast?_lowerAfter [] hne
  have hlower : t.lower ≠ [] := by
    intro hnil
    rw [Text.lower] at hnil
    rw [hnil] at hlast'
    cases hlast'
  have hend : (dotted t).getLast? = some c' := by
    unfold dotted
    simp only
    split
    · exact hlast'
    · rw [← List.singleton_append, List.getLast?_append_of_ne_nil _ hlower]
      exact hlast'
  have hplain : isBlank c' = false := by
    rcases hkept with rfl | hplain
    · rw [← htrim] at hlast
      exact isBlank_of_getLast?_trim hlast
    · exact hplain.1
  exact trim_eq_self_of_ends hdot (by decide) hend hplain

/-- An extension in normal form stays as it is. -/
theorem dotted_eq_self {e : Text} (he : Dotted e) : dotted e = e := by
  unfold dotted
  simp only
  rw [he.lower, if_pos he.dot]

/-- Lower-casing brings no comma into an extension. -/
theorem comma_not_mem_dotted {t : Text} (ht : ',' ∉ t) : ',' ∉ dotted t := by
  have hlower : ',' ∉ t.lower := by
    intro hmem
    rcases mem_or_of_mem_lower hmem with hmem | hplain
    · exact ht hmem
    · exact hplain.2 rfl
  unfold dotted
  simp only
  split
  · exact hlower
  · simpa using hlower

theorem extensionsRule_eq_ok {j : Json} {es : List Text} (h : extensionsRule j = .ok (.ok es)) :
    ∃ ts, trimmedList j = .ok ts ∧ es = (ts.map dotted).eraseDups ∧ es ≠ [] := by
  obtain ⟨ts, hts, h⟩ := bind_eq_ok.mp h
  refine ⟨ts, hts, ?_⟩
  simp only at h
  split at h
  · cases h
  · next hne =>
    cases h
    exact ⟨rfl, hne⟩

/-- Extensions in normal form stay as they are. -/
theorem extensionsRule_of_dotted {j : Json} {es : List Text} (hread : trimmedList j = .ok es) (hne : es ≠ [])
    (hnodup : es.Nodup) (hes : ∀ e ∈ es, Dotted e) : extensionsRule j = .ok (.ok es) := by
  have hdotted : es.map dotted = es := by
    rw [List.map_congr_left fun e he => dotted_eq_self (hes e he), List.map_id']
  unfold extensionsRule
  rw [hread]
  show (if (es.map dotted).eraseDups = [] then _ else _) = _
  rw [hdotted, eraseDups_eq_self hnodup, if_neg hne]

theorem excludedRule_eq_ok {j : Json} {ts : List Text} :
    excludedRule j = .ok (.ok ts) ↔ trimmedList j = .ok ts := by
  unfold excludedRule
  rw [map_eq_ok]
  constructor
  · rintro ⟨ts', hts, heq⟩
    cases heq
    exact hts
  · exact fun h => ⟨ts, h, rfl⟩

theorem logLevelRule_eq_ok {j : Json} {level : Text} (h : logLevelRule j = .ok (.ok level)) :
    level ∈ logLevels := by
  unfold logLevelRule at h
  split at h
  · cases h
    decide
  · split at h
    · simp only at h
      split at h
      · next hlevel =>
        cases h
        exact List.contains_iff_mem.mp hlevel
      · cases h
    · cases h

/-- The names of log levels stay as they are. -/
theorem logLevelRule_of_mem {level : Text} (h : level ∈ logLevels) :
    logLevelRule (.ofText level) = .ok (.ok level) := by
  have hread : ∀ level ∈ logLevels, level ≠ [] ∧ (Text.trim level).map levelLetter = level := by decide
  obtain ⟨hne, hletters⟩ := hread level h
  have htruthy : (!(Json.ofText level).isTruthy) = false := by simp [isTruthy_ofText.mpr hne]
  unfold Json.ofText at htruthy
  rw [Json.ofText, logLevelRule, htruthy, if_neg Bool.false_ne_true]
  simp only [String.toList_ofList, hletters]
  rw [if_pos (List.contains_iff_mem.mpr h)]

/-! ## Arguments -/

/-- An argument that is accepted was given and accepted by its rule, or is the default. -/
theorem argument_eq_ok {args : Json} {name : String} {default? : Option α} {rule : Rule α} {a : α}
    (h : argument args name default? rule = .ok (.ok a)) :
    (∃ j, args.get? name = some j ∧ rule j = .ok (.ok a)) ∨ default? = some a := by
  unfold argument at h
  split at h
  · next j hj =>
    obtain ⟨c, hc, hplaced⟩ := map_eq_ok.mp h
    have haccepted : c = .ok a := mapError_eq_ok.mp hplaced
    exact .inl ⟨j, hj, haccepted ▸ hc⟩
  · cases h
    exact .inr rfl
  · cases h

/-- An argument that is given is accepted by its rule. -/
theorem argument_of_get? {args j : Json} {name : String} {default? : Option α} {rule : Rule α} {a : α}
    (hj : args.get? name = some j) (hrule : rule j = .ok (.ok a)) :
    argument args name default? rule = .ok (.ok a) := by
  unfold argument
  simp only [hj, hrule]
  rfl

/-- Settings in normal form: there are extensions, each of them once and in normal form, and the names of
    directories are trimmed. -/
structure Normal (s : Settings) : Prop where
  someExtension : s.extensions ≠ []
  distinct : s.extensions.Nodup
  dotted : ∀ e ∈ s.extensions, Dotted e
  excluded : ∀ n ∈ s.excluded, Trimmed n
  logLevel : s.logLevel ∈ logLevels

instance (s : Settings) : Decidable s.Normal :=
  decidable_of_iff (s.extensions ≠ [] ∧ s.extensions.Nodup ∧ (∀ e ∈ s.extensions, Dotted e) ∧
      (∀ n ∈ s.excluded, Trimmed n) ∧ s.logLevel ∈ logLevels)
    ⟨fun ⟨hne, hnodup, hdotted, hexcluded, hlevel⟩ => ⟨hne, hnodup, hdotted, hexcluded, hlevel⟩,
      fun h => ⟨h.someExtension, h.distinct, h.dotted, h.excluded, h.logLevel⟩⟩

/-- **Settings that are accepted are in normal form.** -/
theorem normal_of_ofArguments {asName : Bool} {args : Json} (h : ofArguments d asName args = .ok s) :
    s.Normal := by
  obtain ⟨-, hextensions, hexcluded, -, -, hlevel⟩ := ofArguments_eq_ok.mp h
  have hdefaults : defaultExtensions ≠ [] ∧ defaultExtensions.Nodup ∧ (∀ e ∈ defaultExtensions, Dotted e) ∧
      (∀ n ∈ defaultExcluded, Trimmed n) ∧ "INFO".toList ∈ logLevels := by decide +kernel
  have hnames : s.extensions ≠ [] ∧ s.extensions.Nodup ∧ ∀ e ∈ s.extensions, Dotted e := by
    rcases argument_eq_ok hextensions with ⟨j, -, hrule⟩ | heq
    · obtain ⟨ts, hts, heq, hne⟩ := extensionsRule_eq_ok hrule
      refine ⟨hne, heq ▸ nodup_eraseDups _, fun e he => ?_⟩
      rw [heq, List.mem_eraseDups, List.mem_map] at he
      obtain ⟨t, ht, rfl⟩ := he
      exact dotted_dotted (mem_trimmedList hts ht)
    · rw [← Option.some.inj heq]
      exact ⟨hdefaults.1, hdefaults.2.1, hdefaults.2.2.1⟩
  refine ⟨hnames.1, hnames.2.1, hnames.2.2, ?_, ?_⟩
  · rcases argument_eq_ok hexcluded with ⟨j, -, hrule⟩ | heq
    · exact fun n hn => mem_trimmedList (excludedRule_eq_ok.mp hrule) hn
    · rw [← Option.some.inj heq]
      exact hdefaults.2.2.2.1
  · rcases argument_eq_ok hlevel with ⟨j, -, hrule⟩ | heq
    · exact logLevelRule_eq_ok hrule
    · rw [← Option.some.inj heq]
      exact hdefaults.2.2.2.2

/-- The root of accepted settings is resolved to itself. -/
theorem rootRule_of_ofArguments (hcwd : Components d.cwd) (hd : d.ResolvesOnce) {asName : Bool} {args : Json}
    (h : ofArguments d asName args = .ok s) (asName' : Bool) :
    rootRule d asName' (.ofText (Path.toText s.root)) = .ok (.ok s.root) := by
  obtain ⟨written, name, hname, hroot⟩ := exists_canonical_of_ofArguments h
  have hslash : ∀ n ∈ d.cwd, '/' ∉ n := fun n hn => (hcwd n hn).2.2.2
  obtain ⟨parts, hparts, hresolve⟩ := Disk.exists_resolve_of_canonical hslash hname
  have hagain : d.canonical d.cwd (Path.toText s.root) = .ok name := by
    have hreal := PathName.real_ofPath (components_root_of_ofArguments hcwd h)
    show d.canonical d.cwd (PathName.ofPath s.root).toText = _
    rw [Disk.canonical_toText hreal]
    show d.resolve s.root = _
    rw [hroot]
    exact hd parts name hparts hresolve
  have hsome : String.ofList (Path.toText s.root) ≠ "" := by simp [Path.toText]
  rw [Json.ofText, rootRule, if_neg fun hempty => hsome hempty.1, String.toList_ofList, hagain]
  simp only [hroot]

/-- The fields of settings in normal form are accepted as they are, in whatever way the lists are read. -/
theorem ofArguments_of_normal (hs : s.Normal) {asName : Bool} {args extensions excluded : Json}
    (hroot : rootRule d asName (.ofText (Path.toText s.root)) = .ok (.ok s.root))
    (hextensions : trimmedList extensions = .ok s.extensions) (hexcluded : trimmedList excluded = .ok s.excluded)
    (hargs : args = .obj [("workspace_root", .ofText (Path.toText s.root)), ("file_extensions", extensions),
      ("exclude_dirs", excluded), ("sort_key", .str s.sorting.key.word),
      ("sort_order", .str s.sorting.order.word), ("log_level", .ofText s.logLevel)]) :
    ofArguments d asName args = .ok s := by
  have hkey : checkedRule SortKey.read (.str s.sorting.key.word) = .ok (.ok s.sorting.key) := by
    cases s.sorting.key <;> rfl
  have horder : checkedRule SortOrder.read (.str s.sorting.order.word) = .ok (.ok s.sorting.order) := by
    cases s.sorting.order <;> rfl
  subst hargs
  exact ofArguments_eq_ok.mpr ⟨argument_of_get? rfl hroot,
    argument_of_get? rfl (extensionsRule_of_dotted hextensions hs.someExtension hs.distinct hs.dotted),
    argument_of_get? rfl (excludedRule_eq_ok.mpr hexcluded), argument_of_get? rfl hkey,
    argument_of_get? rfl horder, argument_of_get? rfl (logLevelRule_of_mem hs.logLevel)⟩

/-! ## The environment -/

/-- The variables that settings are written to, with commas between the items of a list. -/
def written (s : Settings) : List (String × String) :=
  [("HASHTAGS_WORKSPACE_ROOT", String.ofList (Path.toText s.root)),
    ("HASHTAGS_FILE_EXTENSIONS", commaSeparated s.extensions),
    ("HASHTAGS_EXCLUDE_DIRS", commaSeparated s.excluded), ("HASHTAGS_SORT_KEY", s.sorting.key.word),
    ("HASHTAGS_SORT_ORDER", s.sorting.order.word), ("HASHTAGS_LOG_LEVEL", String.ofList s.logLevel)]

/-- An environment in which settings are written over what was there. -/
def writeTo (s : Settings) (env : Environment) : Environment :=
  s.written.foldl (fun env v => env.insert v.1 v.2) env

/-- Settings whose lists can be written with commas between their items. -/
structure NoCommas (s : Settings) : Prop where
  extensions : ∀ e ∈ s.extensions, ',' ∉ e
  excluded : ∀ n ∈ s.excluded, ',' ∉ n

/-- **Settings that were read from the environment hold no commas.** -/
theorem noCommas_of_ofEnvironment {env : Environment} (h : ofEnvironment d env = .ok s) : s.NoCommas := by
  obtain ⟨-, hextensions, hexcluded, -⟩ := ofArguments_eq_ok.mp h
  have hdefaults : (∀ e ∈ defaultExtensions, ',' ∉ e) ∧ ∀ n ∈ defaultExcluded, ',' ∉ n := by decide
  constructor
  · intro e he
    rcases argument_eq_ok hextensions with ⟨j, hj, hrule⟩ | heq
    · cases hj
      obtain ⟨ts, hts, heq, -⟩ := extensionsRule_eq_ok hrule
      rw [heq, List.mem_eraseDups, List.mem_map] at he
      obtain ⟨t, ht, rfl⟩ := he
      exact comma_not_mem_dotted (comma_not_mem_of_trimmedList hts ht)
    · rw [← Option.some.inj heq] at he
      exact hdefaults.1 e he
  · intro n hn
    rcases argument_eq_ok hexcluded with ⟨j, hj, hrule⟩ | heq
    · cases hj
      exact comma_not_mem_of_trimmedList (excludedRule_eq_ok.mp hrule) hn
    · rw [← Option.some.inj heq] at hn
      exact hdefaults.2 n hn

/-- What is read from an environment that settings were written to. -/
theorem ofEnvironment_writeTo (d : Disk) (s : Settings) (env : Environment) :
    ofEnvironment d (s.writeTo env) = ofArguments d false (.obj
      [("workspace_root", .ofText (Path.toText s.root)), ("file_extensions", .str (commaSeparated s.extensions)),
        ("exclude_dirs", .str (commaSeparated s.excluded)), ("sort_key", .str s.sorting.key.word),
        ("sort_order", .str s.sorting.order.word), ("log_level", .ofText s.logLevel)]) := by
  simp [ofEnvironment, settingVariables, writeTo, written, OrderedMap.get?_insert, Json.ofText]

end Settings

/-! ## Settings that settle -/

section Settling

variable {d : Disk} {s : Settings}

/-- Settings that stay as they are: they are in normal form (`normal`), they are accepted again if their own fields
    are given as arguments (`rebuilt`), and if they were read from the environment, they are read again after they
    were written to it (`reloaded`). -/
structure ConfigurationSettles (d : Disk) (s : Settings) : Prop where
  normal : s.Normal
  rebuilt : ∀ asName, Settings.ofArguments d asName s.toJson = .ok s
  reloaded : ∀ env, (ConfigCache.get none d env).2 = .ok s →
    ConfigCache.reload d (s.writeTo env) = (some s, .ok s)

/-- **Settings that are accepted settle**, where resolving what was resolved changes nothing. -/
theorem configuration_settles (hcwd : Components d.cwd) (hd : d.ResolvesOnce) {asName : Bool} {args : Json}
    (h : Settings.ofArguments d asName args = .ok s) : ConfigurationSettles d s := by
  have hnormal := Settings.normal_of_ofArguments h
  have hroot := Settings.rootRule_of_ofArguments hcwd hd h
  have hextensions : ∀ e ∈ s.extensions, Trimmed e := fun e he => (hnormal.dotted e he).toTrimmed
  refine ⟨hnormal, fun asName' => ?_, fun env henv => ?_⟩
  · exact Settings.ofArguments_of_normal hnormal (hroot asName') (Settings.trimmedList_ofTexts hextensions)
      (Settings.trimmedList_ofTexts hnormal.excluded) rfl
  · have hread : Settings.ofEnvironment d env = .ok s := by
      unfold ConfigCache.get at henv
      simp only at henv
      split at henv
      · next s' hs' => rw [hs', Except.ok.inj henv]
      · cases henv
    obtain ⟨hcommas, hcommas'⟩ := Settings.noCommas_of_ofEnvironment hread
    have hagain : Settings.ofEnvironment d (s.writeTo env) = .ok s := by
      rw [Settings.ofEnvironment_writeTo]
      exact Settings.ofArguments_of_normal hnormal (hroot false)
        (Settings.trimmedList_commaSeparated hextensions hcommas)
        (Settings.trimmedList_commaSeparated hnormal.excluded hcommas') rfl
    rw [ConfigCache.reload, ConfigCache.get, hagain]

end Settling

/-! ## A folder that is reached through a link -/

/-- A disk with a folder of notes, and a link to it. -/
def shortcutDisk : Disk :=
  { Disk.ofDirectories [] [] "/home".toList with
    entries := .ofList [(["home".toList], .directory), (["home".toList, "notes".toList], .directory),
      (["n".toList], .link "home/notes".toList)] }

/-- An environment that sets what there is to set, not in normal form. -/
def shortcutEnvironment : Environment :=
  .ofList [("HASHTAGS_WORKSPACE_ROOT", "/n/."), ("HASHTAGS_FILE_EXTENSIONS", " .MD,md, ,Txt "),
    ("HASHTAGS_EXCLUDE_DIRS", ""), ("HASHTAGS_SORT_ORDER", "desc"), ("HASHTAGS_LOG_LEVEL", " debug")]

/-- The settings that the environment stands for. -/
def shortcutSettings : Settings :=
  ⟨["home".toList, "notes".toList], [".md".toList, ".txt".toList], [], ⟨.name, .desc⟩, "DEBUG".toList⟩

theorem resolvesOnce_shortcutDisk : shortcutDisk.ResolvesOnce := by
  have htree : shortcutDisk.IsTree := by decide
  have hacyclic : shortcutDisk.Acyclic := htree.acyclic_of_locate? (by decide +kernel)
  exact hacyclic.resolvesOnce (by decide)

/-- The settings from the environment settle. -/
theorem shortcut_settles : (ConfigCache.get none shortcutDisk shortcutEnvironment).2 = .ok shortcutSettings ∧
    ConfigurationSettles shortcutDisk shortcutSettings := by
  have hread : Settings.ofEnvironment shortcutDisk shortcutEnvironment = .ok shortcutSettings := by cbv
  refine ⟨?_, configuration_settles (by decide) resolvesOnce_shortcutDisk hread⟩
  rw [ConfigCache.get, hread]

end HashtagIndex
