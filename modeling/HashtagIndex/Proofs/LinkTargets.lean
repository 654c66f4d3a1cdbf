import HashtagIndex.Proofs.Grounds

/-!
# `Proofs.LinkTargets` — links that stay on the grounds

Whether grounds enclose a disk can be told from its links alone. If no link stands above a ground, and the
target of each link on the grounds is spelled by components that lead to the grounds, then so does every
path name there (`LinksStay.encloses`). Opening and resolving go the same way through components, and a link
only replaces those that led to it; where a loop stops the resolution, the rest of the name goes on from
the link.

## Contents
- `TargetOn`, `Disk.LinksStay`, `LinksStay.targetOn`.
- `StageOn`, `LinksStay.advance`, `LinksStay.walk?`: opening.
- `ResolvedOn`, `StaysStep`, `LinksStay.followAll`, `LinksStay.follow`: resolving.
- `LinksStay.encloses`, `LinkFree.encloses`.
-/

namespace HashtagIndex

variable {gs : List Path} {d : Disk} {dir place : Path} {t : Text}

/-! ## Targets -/

/-- A target that is spelled by components, from the root or from the directory of the link, and leads to
    the grounds. -/
structure TargetOn (gs : List Path) (dir : Path) (t : Text) : Prop where
  nonempty : pathParts t ≠ []
  components : Components (pathParts t)
  spelled : t = joinSegments (pathParts t) ∨ t = Path.toText (pathParts t)
  onGrounds : OnGrounds gs (Disk.linkBase dir t ++ pathParts t)

instance (gs : List Path) (dir : Path) (t : Text) : Decidable (TargetOn gs dir t) :=
  decidable_of_iff (pathParts t ≠ [] ∧ Components (pathParts t) ∧
      (t = joinSegments (pathParts t) ∨ t = Path.toText (pathParts t)) ∧
      OnGrounds gs (Disk.linkBase dir t ++ pathParts t))
    ⟨fun ⟨hne, hcomponents, hspelled, hon⟩ => ⟨hne, hcomponents, hspelled, hon⟩,
      fun h => ⟨h.nonempty, h.components, h.spelled, h.onGrounds⟩⟩

/-- An entry that is no link, or one that does not stand above a ground and, if it stands on the grounds,
    leads to them. -/
def Entry.StaysAt (gs : List Path) (p : Path) : Entry → Prop
  | .link t => (∀ b ∈ gs, p <+: b → p = b) ∧ (OnGrounds gs p → TargetOn gs p.dropLast t)
  | _ => True

instance (gs : List Path) (p : Path) : (e : Entry) → Decidable (e.StaysAt gs p)
  | .link _ => inferInstanceAs (Decidable (_ ∧ _))
  | .directory => inferInstanceAs (Decidable True)
  | .file _ => inferInstanceAs (Decidable True)

/-- A disk whose links stay on the grounds. -/
def Disk.LinksStay (gs : List Path) (d : Disk) : Prop := ∀ x ∈ d.entries.toList, x.2.StaysAt gs x.1

instance (gs : List Path) (d : Disk) : Decidable (d.LinksStay gs) := inferInstanceAs (Decidable (∀ x ∈ _, _))

/-- A link that is met on the way to the grounds leads to them. -/
theorem Disk.LinksStay.targetOn (h : d.LinksStay gs) {name : Text} {rest : List Text}
    (hon : OnGrounds gs (place ++ name :: rest)) (hlink : d.entry? (place ++ [name]) = some (.link t)) :
    TargetOn gs place t := by
  have hmem := (entry?_eq_some (by simp)).mp hlink
  obtain ⟨habove, htarget⟩ : (∀ b ∈ gs, place ++ [name] <+: b → place ++ [name] = b) ∧
      (OnGrounds gs (place ++ [name]) → TargetOn gs (place ++ [name]).dropLast t) := h _ hmem
  rw [List.dropLast_concat] at htarget
  apply htarget
  obtain ⟨b, hb, hbelow⟩ := hon
  have hnext : place ++ [name] <+: place ++ name :: rest := ⟨rest, by simp⟩
  -- the link stands above the ground or below it
  rcases List.prefix_or_prefix_of_prefix hbelow hnext with hprefix | hprefix
  · exact ⟨b, hb, hprefix⟩
  · rw [habove b hb hprefix]
    exact ⟨b, hb, List.prefix_rfl⟩

/-- How a target is cut into parts: a first slash opens an empty one. -/
theorem TargetOn.splitOn (h : TargetOn gs dir t) :
    t.splitOn '/' = pathParts t ∨ t.splitOn '/' = [] :: pathParts t ∧ Disk.linkBase dir t = [] := by
  have hjoin : (joinSegments (pathParts t)).splitOn '/' = pathParts t := by
    rw [joinSegments, List.splitOn_intercalate '/' (fun n hn => (h.components n hn).2.2.2) h.nonempty]
  rcases h.spelled with heq | heq
  · refine .inl ?_
    rw [← heq] at hjoin
    exact hjoin
  · refine .inr ⟨?_, ?_⟩
    · rw [heq]
      show ('/' :: joinSegments (pathParts t)).splitOn '/' = [] :: pathParts (Path.toText (pathParts t))
      rw [← heq, List.splitOn_cons_eq_if_modifyHead, hjoin]
      simp
    · rw [heq]
      rfl

theorem TargetOn.targetParts (h : TargetOn gs dir t) : Disk.targetParts t = pathParts t := by
  obtain ⟨front, last, hparts⟩ : ∃ front last, pathParts t = front ++ [last] :=
    ⟨_, _, (List.dropLast_append_getLast h.nonempty).symm⟩
  have hlast : (t.splitOn '/').getLast? = some last := by
    rcases h.splitOn with hsplit | ⟨hsplit, -⟩
    · rw [hsplit, hparts, List.getLast?_concat]
    · rw [hsplit, hparts, ← List.cons_append, List.getLast?_concat]
  have hcomponent : IsComponent last := h.components last (by rw [hparts]; simp)
  have hasks : Disk.asksDirectory t = false := by
    unfold Disk.asksDirectory
    rw [hlast]
    simp [hcomponent.1, hcomponent.2.1]
  rw [Disk.targetParts, hasks, if_neg Bool.false_ne_true, List.append_nil]

namespace Disk

/-! ## Opening -/

/-- A stage from which the rest of the way leads to the grounds. -/
def StageOn (gs : List Path) : Stage → Prop
  | .arrived p => OnGrounds gs p
  | .atLink dir t rest => Components (targetParts t ++ rest) ∧
      OnGrounds gs (linkBase dir t ++ (targetParts t ++ rest))

namespace LinksStay

variable (h : d.LinksStay gs)
include h

/-- **Taking components towards the grounds** arrives there, or at a link that leads there. -/
theorem advance {names : List Text} (hnames : Components names) (hon : OnGrounds gs (place ++ names))
    {stage : Stage} (hstage : d.advance place names = .ok stage) : StageOn gs stage := by
  induction names generalizing place with
  | nil =>
    rw [List.append_nil] at hon
    obtain rfl := Except.ok.inj hstage
    exact hon
  | cons name rest ih =>
    obtain ⟨hname, hrest⟩ := List.forall_mem_cons.mp hnames
    have hsplit : place ++ name :: rest = place ++ [name] ++ rest := by simp
    unfold Disk.advance at hstage
    split at hstage
    · cases hstage
    split at hstage
    · cases hstage
    split at hstage
    · cases hstage
    rw [if_neg hname.2.1, if_neg hname.2.2.1] at hstage
    split at hstage
    · cases hstage
    · next t hlink =>
      obtain rfl := Except.ok.inj hstage
      have htarget := h.targetOn hon hlink
      show Components (targetParts t ++ rest) ∧ OnGrounds gs (linkBase place t ++ (targetParts t ++ rest))
      rw [htarget.targetParts, ← List.append_assoc]
      exact ⟨htarget.components.append hrest, htarget.onGrounds.append rest⟩
    · exact ih hrest (hsplit ▸ hon) hstage

theorem walk? (links : Nat) (place : Path) {names : List Text} (hnames : Components names)
    (hon : OnGrounds gs (place ++ names)) {p : Path} (hp : d.walk? links place names = .ok p) :
    OnGrounds gs p := by
  induction links generalizing place names with
  | zero =>
    unfold Disk.walk? at hp
    split at hp
    · cases hp
    · next q hstage =>
      obtain rfl := Except.ok.inj hp
      exact h.advance hnames hon hstage
    · cases hp
  | succ links ih =>
    unfold Disk.walk? at hp
    split at hp
    · cases hp
    · next q hstage =>
      obtain rfl := Except.ok.inj hp
      exact h.advance hnames hon hstage
    · next dir t rest hstage =>
      obtain ⟨hnames', hon'⟩ := h.advance hnames hon hstage
      exact ih _ hnames' hon' hp

end LinksStay

/-! ## Resolving -/

theorem foldDots_append (parts : List Text) {rest : List Text} (hrest : Components rest) :
    foldDots (parts ++ rest) = foldDots parts ++ rest := by
  have hfold : ∀ p : Path, rest.foldl (fun p n => if n = ['.', '.'] then p.dropLast else p ++ [n]) p =
      p ++ rest := by
    intro p
    induction rest generalizing p with
    | nil => exact (List.append_nil p).symm
    | cons n rest ih =>
      obtain ⟨hn, hrest⟩ := List.forall_mem_cons.mp hrest
      rw [List.foldl_cons, if_neg hn.2.2.1, ih hrest, List.append_assoc, List.singleton_append]
  rw [foldDots, List.foldl_append, hfold]
  rfl

theorem head?_joinSegments {rest : List Text} (hrest : Components rest) :
    (joinSegments rest).head? ≠ some '/' := by
  intro hhead
  obtain ⟨u, hu⟩ := List.head?_eq_some_iff.mp hhead
  have hslashes := takeWhile_joinSegments hrest
  rw [hu, List.takeWhile_cons_of_pos (by simp)] at hslashes
  cases hslashes

/-- The parts of a name that goes on through components. -/
theorem pathParts_joinNames {front : Text} {rest : List Text} (hrest : Components rest) :
    pathParts (joinNames front (joinSegments rest)) = pathParts front ++ rest := by
  have hread := pathParts_joinSegments hrest
  have hslash : ∀ f b : Text, pathParts (f ++ '/' :: b) = pathParts f ++ pathParts b := by
    intro f b
    rw [pathParts, List.splitOn_append_cons_self, List.filter_append]
    rfl
  rw [joinNames, if_neg (head?_joinSegments hrest)]
  split
  · next hlast =>
    obtain ⟨f, rfl⟩ := List.getLast?_eq_some_iff.mp hlast
    have hempty : pathParts (f ++ ['/']) = pathParts f := by
      rw [hslash]
      exact List.append_nil _
    rw [List.append_assoc, List.singleton_append, hslash, hread, hempty]
  · rw [hslash, hread]

theorem foldDots_joinNames {front : Text} {rest : List Text} (hrest : Components rest) :
    foldDots (pathParts (joinNames front (joinSegments rest))) = foldDots (pathParts front) ++ rest := by
  rw [pathParts_joinNames hrest, foldDots_append _ hrest]

theorem foldDots_toText {p : Path} (hp : Components p) : foldDots (pathParts (Path.toText p)) = p := by
  rw [Path.toText, pathParts_slash, pathParts_joinSegments hp]
  exact foldDots_append [] hp

/-- An empty part at the beginning of a name means nothing. -/
theorem follow_empty (depth : Nat) (met : MetLinks) {names : List Text} (hnames : Components names) :
    d.follow depth met [] ([] :: names) = d.follow depth met [] names := by
  cases depth with
  | zero =>
    cases names with
    | nil => rfl
    | cons n names =>
      show (met, Resolution.looping ('/' :: joinSegments (n :: names))) =
        (met, .looping (joinNames ['/'] (joinSegments (n :: names))))
      rw [joinNames, if_neg (head?_joinSegments hnames)]
      rfl
  | succ depth => rfl

/-- A resolution that comes out on the grounds. -/
def ResolvedOn (gs : List Path) : Resolution → Prop
  | .settled p => OnGrounds gs p
  | .looping written => OnGrounds gs (foldDots (pathParts written))

theorem ResolvedOn.name {r : Resolution} (h : ResolvedOn gs r) : OnGrounds gs r.name.parts := by
  cases r <;> exact h

/-- Links that lead to real places on the grounds, as far as it is known where they lead. -/
structure MetOn (gs : List Path) (met : MetLinks) : Prop where
  sound : MetSound met
  onGrounds : ∀ k p, met.get? k = some (some p) → OnGrounds gs p

theorem MetOn.insert {met : MetLinks} (h : MetOn gs met) {k : Path} {p? : Option Path}
    (hsound : ∀ p, p? = some p → Components p) (hon : ∀ p, p? = some p → OnGrounds gs p) :
    MetOn gs (met.insert k p?) := by
  refine ⟨h.sound.insert hsound, fun j p hj => ?_⟩
  rw [OrderedMap.get?_insert] at hj
  split at hj
  · exact hon p (Option.some.inj hj)
  · exact h.onGrounds j p hj

/-- A way of taking components that comes out on the grounds if it is led there. -/
def StaysStep (gs : List Path) (step : MetLinks → Path → List Text → MetLinks × Resolution) : Prop :=
  ∀ met place names, MetOn gs met → Components place → Components names → OnGrounds gs (place ++ names) →
    MetOn gs (step met place names).1 ∧ ResolvedOn gs (step met place names).2

namespace LinksStay

variable (h : d.LinksStay gs)
include h

/-- **Taking components** comes out on the grounds if entering links does. -/
theorem followAll {depth : Nat} (henter : StaysStep gs (d.follow depth)) :
    StaysStep gs (d.followAll (d.follow depth)) := by
  intro met place names hmet hplace hnames hon
  induction names generalizing met place with
  | nil =>
    rw [List.append_nil] at hon
    exact ⟨hmet, hon⟩
  | cons name rest ih =>
    obtain ⟨hname, hrest⟩ := List.forall_mem_cons.mp hnames
    have hnext : Components (place ++ [name]) := hplace.append (List.forall_mem_singleton.mpr hname)
    have hsplit : place ++ name :: rest = place ++ [name] ++ rest := by simp
    rw [Disk.followAll, if_neg (not_or.mpr ⟨hname.1, hname.2.1⟩), if_neg hname.2.2.1]
    simp only
    split
    · next t hlink =>
      have htarget := h.targetOn hon hlink
      split
      · next p hp => exact ih _ _ hmet (hmet.sound _ _ hp) hrest ((hmet.onGrounds _ _ hp).append rest)
      · refine ⟨hmet, ?_⟩
        show OnGrounds gs (foldDots (pathParts (joinNames (Path.toText (place ++ [name])) (joinSegments rest))))
        rw [foldDots_joinNames hrest, foldDots_toText hnext, ← hsplit]
        exact hon
      · -- the link is resolved from its own directory, or from the root
        have hbase : Components (linkBase place t) := by
          unfold linkBase
          split
          · exact List.forall_mem_nil _
          · exact hplace
        have hmet₁ : MetOn gs (met.insert (place ++ [name]) none) := hmet.insert nofun nofun
        have henter' : d.follow depth (met.insert (place ++ [name]) none) (linkBase place t)
            (t.splitOn '/') = d.follow depth (met.insert (place ++ [name]) none) (linkBase place t)
              (pathParts t) := by
          rcases htarget.splitOn with hparts | ⟨hparts, hroot⟩
          · rw [hparts]
          · rw [hparts, hroot, follow_empty _ _ htarget.components]
        obtain ⟨hmet', hresolved⟩ := henter _ _ _ hmet₁ hbase htarget.components htarget.onGrounds
        have hsound := (follow_sound (d := d) depth _ _ _ hmet₁.sound hbase
          fun n hn => (htarget.components n hn).2.2.2).2
        rw [henter']
        split
        · next met' written heq =>
          rw [heq] at hmet' hresolved
          refine ⟨hmet', ?_⟩
          show OnGrounds gs (foldDots (pathParts (joinNames written (joinSegments rest))))
          rw [foldDots_joinNames hrest]
          exact OnGrounds.append hresolved rest
        · next met' p heq =>
          rw [heq] at hmet' hresolved hsound
          have hp : ∀ q, some p = some q → Components q := fun q hq => Option.some.inj hq ▸ hsound
          have hpon : ∀ q, some p = some q → OnGrounds gs q := fun q hq => Option.some.inj hq ▸ hresolved
          exact ih _ _ (hmet'.insert hp hpon) hsound hrest (OnGrounds.append hresolved rest)
    · exact ih _ _ hmet hnext hrest (hsplit ▸ hon)

/-- Resolving comes out on the grounds, however deep links stand inside one another. -/
theorem follow (depth : Nat) : StaysStep gs (d.follow depth) := by
  induction depth with
  | zero =>
    intro met place names hmet hplace hnames hon
    refine ⟨hmet, ?_⟩
    show OnGrounds gs (foldDots (pathParts (joinNames (Path.toText place) (joinSegments names))))
    rw [foldDots_joinNames hnames, foldDots_toText hplace]
    exact hon
  | succ depth ih => exact h.followAll ih

/-- **Grounds enclose a disk whose links stay on them.** -/
theorem encloses (htree : d.IsTree) : Encloses gs d := by
  refine ⟨htree, fun p n hp hon hn => ?_, fun p q hp hon hq => ?_⟩
  · rw [eq_of_resolve hn]
    exact (h.follow _ .empty [] p ⟨nofun, nofun⟩ (List.forall_mem_nil _) hp.components hon).2.name
  · unfold locate? at hq
    split at hq
    · cases hq
    · exact h.walk? 40 [] hp.components hon hq

end LinksStay

/-- Without links there is none that leaves the grounds. -/
theorem LinkFree.encloses (hd : d.LinkFree) (htree : d.IsTree) (gs : List Path) : Encloses gs d := by
  refine LinksStay.encloses (fun x hx => ?_) htree
  obtain ⟨p, e⟩ := x
  cases e with
  | link t => cases hd _ hx
  | directory => trivial
  | file b => trivial

end Disk

end HashtagIndex
