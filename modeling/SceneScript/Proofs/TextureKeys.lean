import SceneScript.Proofs.TextureSets

/-!
# Keys of texture requests

A key is the text of the places of a request, each ended by a line feed. Where no name holds a line
feed, the key tells the places (`key_inj`), and then a request gets a module that was written for
exactly its kind and its images. A name may hold a line feed, though, and then two sets of images
can have one key: `sets_conflated` is such a case.

`texture_runs` says what holds in every run: a request gets the module of the first request with the
same key, and two requests get the same module just if their keys are equal.
-/

namespace SceneScript

/-! ## Pieces and their separators -/

namespace Text

theorem splitChars_intercalate {sep : Char} {pieces : List (List Char)} (hne : pieces ≠ [])
    (h : ∀ piece ∈ pieces, sep ∉ piece) :
    splitChars sep (List.intercalate [sep] pieces) = pieces := by
  induction pieces with
  | nil => exact absurd rfl hne
  | cons piece pieces ih =>
    have hpiece := splitChars_of_not_mem (h piece List.mem_cons_self)
    cases pieces with
    | nil => rw [List.intercalate_singleton, hpiece]
    | cons next pieces =>
      have hrest := ih (by simp) fun p hp => h p (List.mem_cons_of_mem _ hp)
      rw [List.intercalate_cons_cons, List.append_assoc, List.singleton_append,
        splitChars_append_cons, hpiece, hrest, List.singleton_append]

/-- Pieces that are each ended by a separator, with nothing behind the last one. -/
theorem splitChars_flatMap_snoc {sep : Char} {pieces : List (List Char)}
    (h : ∀ piece ∈ pieces, sep ∉ piece) :
    splitChars sep (pieces.flatMap fun piece => piece ++ [sep]) = pieces ++ [[]] := by
  induction pieces with
  | nil => rfl
  | cons piece pieces ih =>
    have hpiece := splitChars_of_not_mem (h piece List.mem_cons_self)
    have hrest := ih fun p hp => h p (List.mem_cons_of_mem _ hp)
    rw [List.flatMap_cons, List.append_assoc, List.singleton_append, splitChars_append_cons, hpiece,
      hrest]
    rfl

end Text

/-! ## Texts of places -/

namespace Location

/-- Every name on the way can stand between two slashes. -/
def Proper (l : Location) : Prop :=
  ∀ name ∈ l.names, name ≠ "" ∧ '/' ∉ name.toList

/-- No name on the way holds a line feed. -/
def OneLine (l : Location) : Prop :=
  ∀ name ∈ l.names, '\n' ∉ name.toList

theorem toList_text (l : Location) :
    l.text.toList = '/' :: List.intercalate ['/'] (l.names.map String.toList) := by
  simp [text]

theorem split_text {l : Location} (h : l.Proper) :
    Text.splitChars '/' l.text.toList =
      if l.names = [] then [[], []] else [] :: l.names.map String.toList := by
  rw [toList_text, ← List.nil_append ('/' :: _), Text.splitChars_append_cons]
  split
  · rename_i hnames
    rw [hnames]
    rfl
  · rename_i hnames
    rw [Text.splitChars_intercalate (by simpa using hnames)]
    · rfl
    · intro piece hpiece
      obtain ⟨name, hname, rfl⟩ := List.mem_map.1 hpiece
      exact (h name hname).2

/-- Different places have different texts. -/
theorem text_inj {a b : Location} (ha : a.Proper) (hb : b.Proper) (h : a.text = b.text) :
    a = b := by
  -- the root alone has an empty piece behind its slash
  have notRoot {l : Location} (hl : l.Proper) : l.names.map String.toList ≠ [[]] := by
    intro e
    obtain ⟨name, hname, hempty⟩ := List.map_eq_singleton_iff.1 e
    have := (hl name (by simp [hname])).1
    exact this (by simpa using hempty)
  have hsplit := split_text ha
  rw [h, split_text hb] at hsplit
  obtain ⟨as⟩ := a
  obtain ⟨bs⟩ := b
  simp only at hsplit
  congr 1
  split_ifs at hsplit with hbs has has
  · rw [has, hbs]
  · exact absurd (List.cons.inj hsplit).2.symm (notRoot ha)
  · exact absurd (List.cons.inj hsplit).2 (notRoot hb)
  · have hnames := (List.cons.inj hsplit).2
    exact (List.map_injective_iff.2 fun _ _ => String.toList_inj.1) hnames.symm

theorem map_text_inj {ls ms : List Location} (hls : ∀ l ∈ ls, l.Proper)
    (hms : ∀ m ∈ ms, m.Proper) (h : ls.map text = ms.map text) : ls = ms := by
  induction ls generalizing ms with
  | nil => simpa using h.symm
  | cons l ls ih =>
    cases ms with
    | nil => simp at h
    | cons m ms =>
      simp only [List.map_cons, List.cons.injEq] at h
      simp only [List.forall_mem_cons] at hls hms
      rw [text_inj hls.1 hms.1 h.1, ih hls.2 hms.2 h.2]

theorem OneLine.not_mem_text {l : Location} (h : l.OneLine) : '\n' ∉ l.text.toList := by
  have inner (pieces : List (List Char)) (hp : ∀ piece ∈ pieces, '\n' ∉ piece) :
      '\n' ∉ List.intercalate ['/'] pieces := by
    induction pieces with
    | nil => simp
    | cons piece pieces ih =>
      have hpiece := hp piece List.mem_cons_self
      cases pieces with
      | nil => simpa using hpiece
      | cons next pieces =>
        have hrest := ih fun p hmem => hp p (List.mem_cons_of_mem _ hmem)
        rw [List.intercalate_cons_cons]
        simp only [List.mem_append, List.mem_singleton, not_or]
        exact ⟨⟨hpiece, by decide⟩, hrest⟩
  rw [toList_text, List.mem_cons, not_or]
  refine ⟨by decide, inner _ fun piece hpiece => ?_⟩
  obtain ⟨name, hname, rfl⟩ := List.mem_map.1 hpiece
  exact h name hname

end Location

/-! ## Places that paths lead to -/

namespace Disk

theorem walk_proper {d : Disk} {segments : List String} {l m : Location} (hl : l.Proper)
    (hsegments : ∀ segment ∈ segments, '/' ∉ segment.toList)
    (h : d.walk l segments = .ok m) : m.Proper := by
  induction segments generalizing l with
  | nil =>
    cases h
    exact hl
  | cons segment rest ih =>
    have hrest : ∀ s ∈ rest, '/' ∉ s.toList := fun s hs => hsegments s (List.mem_cons_of_mem _ hs)
    simp only [Disk.walk] at h
    cases hnode : d.node? l with
    | none => simp [hnode] at h
    | some n =>
      cases n with
      | file c => simp [hnode] at h
      | directory =>
        simp only [hnode] at h
        split_ifs at h with hvoid hup hlong
        · exact ih hl hrest h
        · refine ih (fun name hname => ?_) hrest h
          exact hl name (List.mem_of_mem_dropLast hname)
        · cases hc : d.node? (l.child segment) with
          | none => simp [hc] at h
          | some n =>
            simp only [hc] at h
            refine ih (fun name hname => ?_) hrest h
            rcases List.mem_append.1 hname with hname | hname
            · exact hl name hname
            · obtain rfl : name = segment := by simpa using hname
              refine ⟨?_, hsegments name List.mem_cons_self⟩
              rintro rfl
              exact hvoid rfl

theorem locate_proper {d : Disk} {p : Path} {l : Location} (hcwd : d.cwd.Proper)
    (h : d.locate p = .ok l) : l.Proper := by
  obtain ⟨-, -, hwalk⟩ := except_bind_eq_ok.1 h
  refine walk_proper ?_ ?_ hwalk
  · unfold origin
    split
    · exact fun name hname => by simp [Location.root] at hname
    · exact hcwd
  · intro segment hsegment
    obtain ⟨piece, hpiece, rfl⟩ := List.mem_map.1 hsegment
    rw [String.toList_ofList]
    exact Text.not_mem_of_mem_splitChars hpiece

end Disk

namespace TextureLibrary

theorem proper_of_places {d : Disk} {base : Path} {files : List String} {found : List Location}
    (hcwd : d.cwd.Proper) (h : places d base files = .ok found) : ∀ l ∈ found, l.Proper := by
  obtain ⟨ls, hls, hsorted⟩ := except_bind_eq_ok.1 h
  cases hsorted
  have hall := (mapM_eq_ok_iff.1 hls).flip.imp fun l file hl =>
    And.intro (Disk.locate_proper hcwd (resolveAsset_eq_ok.1 hl)) hl
  intro l hl
  exact ((List.forall₂_and_left _ _).1 hall).1 l ((List.mergeSort_perm ls _).mem_iff.1 hl)

/-- The lines of a key are the texts of its places. -/
theorem split_key {found : List Location} (h : ∀ l ∈ found, l.OneLine) :
    Text.splitChars '\n' (key found).toList =
      (found.map Location.text).map String.toList ++ [[]] := by
  have hkey : (key found).toList =
      ((found.map Location.text).map String.toList).flatMap fun piece => piece ++ ['\n'] := by
    simp [key, String.toList_join, List.flatMap_map]
  rw [hkey, Text.splitChars_flatMap_snoc]
  intro piece hpiece
  obtain ⟨text, htext, rfl⟩ := List.mem_map.1 hpiece
  obtain ⟨l, hl, rfl⟩ := List.mem_map.1 htext
  exact (h l hl).not_mem_text

/-- Without line feeds in names, the key of a request tells its places. -/
theorem key_inj {found found' : List Location} (hproper : ∀ l ∈ found, l.Proper)
    (hproper' : ∀ l ∈ found', l.Proper) (hline : ∀ l ∈ found, l.OneLine)
    (hline' : ∀ l ∈ found', l.OneLine) : key found = key found' ↔ found = found' := by
  refine ⟨fun h => ?_, fun h => h ▸ rfl⟩
  have hlines := split_key hline
  rw [h, split_key hline'] at hlines
  have hchars := List.append_cancel_right hlines
  have htexts := (List.map_injective_iff.2 fun _ _ => String.toList_inj.1) hchars
  exact (Location.map_text_inj hproper' hproper htexts).symm

theorem length_of_places {d : Disk} {base : Path} {files : List String} {found : List Location}
    (h : places d base files = .ok found) : found.length = files.length := by
  obtain ⟨ls, hls, hsorted⟩ := except_bind_eq_ok.1 h
  cases hsorted
  rw [(List.mergeSort_perm ls _).length_eq, length_of_mapM hls]

/-- Without line feeds in names, the key of a request tells its kind and its places. -/
theorem key_eq_iff {d d' : Disk} {base : Path} {files files' : List String}
    {found found' : List Location} {kind kind' : TextureKind} (hcwd : d.cwd.Proper)
    (hcwd' : d'.cwd.Proper) (hkind : TextureKind.ofCount? files.length = some kind)
    (hkind' : TextureKind.ofCount? files'.length = some kind')
    (hplaces : places d base files = .ok found) (hplaces' : places d' base files' = .ok found')
    (hline : ∀ l ∈ found, l.OneLine) (hline' : ∀ l ∈ found', l.OneLine) :
    key found = key found' ↔ kind = kind' ∧ found = found' := by
  rw [key_inj (proper_of_places hcwd hplaces) (proper_of_places hcwd' hplaces') hline hline']
  refine ⟨fun h => ⟨?_, h⟩, fun h => h.2⟩
  -- the kind is that of the number of places
  rw [← length_of_places hplaces, h, length_of_places hplaces', hkind'] at hkind
  exact (Option.some.inj hkind).symm

/-- A library and a disk before the first request. -/
def atStart (base out : Path) (d : Disk) : TextureLibrary × Disk :=
  (new base out, d)

/-! ## Names with line feeds -/

/-- A disk with an image `/a`, and another one below directories whose names end in a line feed, so
that the text of its place reads like six lines `/a`. -/
def linedDisk : Disk where
  cwd := .root
  nodes :=
    [(⟨["a"]⟩, .file "A".toUTF8), (⟨["out"]⟩, .directory)] ++
      ((List.range 5).map fun n => (⟨List.replicate (n + 1) "a\n"⟩, .directory)) ++
      [(⟨List.replicate 5 "a\n" ++ ["a"]⟩, .file "B".toUTF8)]

/-- A cube of which each face is the first image. -/
def linedCube : List String :=
  List.replicate cubeFaces "a"

/-- The other image alone. -/
def linedSheet : List String :=
  ["a\n/a\n/a\n/a\n/a\n/a"]

theorem places_linedCube :
    places linedDisk ⟨"/"⟩ linedCube = .ok (List.replicate cubeFaces ⟨["a"]⟩) := by
  have hfiles : linedCube.mapM (resolveAsset linedDisk ⟨"/"⟩) =
      .ok (List.replicate cubeFaces ⟨["a"]⟩) := rfl
  rw [places_of_mapM hfiles, List.mergeSort_of_pairwise (by decide)]

theorem places_linedSheet {d : Disk} (h : Disk.Grows linedDisk d) :
    places d ⟨"/"⟩ linedSheet = .ok [⟨List.replicate 5 "a\n" ++ ["a"]⟩] := by
  have hfiles : linedSheet.mapM (resolveAsset linedDisk ⟨"/"⟩) =
      .ok [⟨List.replicate 5 "a\n" ++ ["a"]⟩] := rfl
  rw [places_of_mapM (mapM_of_grows h hfiles), List.mergeSort_singleton]

theorem add_linedCube :
    ∃ s, (new ⟨"/"⟩ ⟨"/out"⟩).add linedDisk linedCube = .ok (⟨.texture 0, .cube, true⟩, s) :=
  ⟨_, add_of_new rfl places_linedCube rfl rfl rfl⟩

/-- The second request is for another kind and another image, and still it gets the module of the
first one. -/
theorem sets_conflated :
    ∃ s : TextureLibrary × Disk,
      (new ⟨"/"⟩ ⟨"/out"⟩).add linedDisk linedCube = .ok (⟨.texture 0, .cube, true⟩, s) ∧
        s.1.add s.2 linedSheet = .ok (⟨.texture 0, .flat, false⟩, s) := by
  obtain ⟨⟨t, d⟩, h⟩ := add_linedCube
  refine ⟨(t, d), h, ?_⟩
  have hafter := extends_after (new ⟨"/"⟩ ⟨"/out"⟩, linedDisk) linedCube
  rw [after_of_ok h] at hafter
  have hplaces := places_linedSheet hafter.disk
  have hserve : registry.serve (atStart ⟨"/"⟩ ⟨"/out"⟩ linedDisk) linedCube =
      .ok (.texture 0, t, d) := serve_eq_ok_iff.2 ⟨_, h, rfl⟩
  have hlookup : t.cached.lookup (key (List.replicate cubeFaces ⟨["a"]⟩)) = some (.texture 0) :=
    registry_lawful.lookup_of_serve hserve (key?_of_places rfl places_linedCube)
  have hkey : key [⟨List.replicate 5 "a\n" ++ ["a"]⟩] = key (List.replicate cubeFaces ⟨["a"]⟩) := by
    decide +kernel
  rw [← hkey] at hlookup
  exact add_of_cached rfl (hafter.base ▸ hplaces) hlookup

/-! ## Runs -/

theorem later_run (s : TextureLibrary × Disk) (rs : List (List String)) :
    Later s (registry.run s rs) := by
  induction rs using List.reverseRecOn with
  | nil => exact .now
  | append_singleton rs r ih =>
    rw [registry.run_append]
    exact .request r ih

theorem base_run (base out : Path) (d : Disk) (rs : List (List String)) :
    (registry.run (atStart base out d) rs).1.base = base :=
  (later_run (atStart base out d) rs).extends.base

theorem cwd_run (base out : Path) (d : Disk) (rs : List (List String)) :
    (registry.run (atStart base out d) rs).2.cwd = d.cwd :=
  (later_run (atStart base out d) rs).extends.disk.cwd

/-- A request with a new key makes a module for its kind and its images, which goes on to hold the
images as they were then. -/
theorem readText_run {base out : Path} {d : Disk} {before : List (List String)}
    {maker : List String} {k : String} {name : ModuleName} {u : TextureLibrary × Disk}
    (h : registry.serve (registry.run (atStart base out d) before) maker = .ok (name, u))
    (hkey : registry.key? (registry.run (atStart base out d) before) maker = some k)
    (hnew : (registry.run (atStart base out d) before).1.cached.lookup k = none) :
    ∃ kind made urls, TextureKind.ofCount? maker.length = some kind ∧
      places (registry.run (atStart base out d) before).2 base maker = .ok made ∧
      key made = k ∧
      made.mapM (Image.locationDataUrl (registry.run (atStart base out d) before).2) = .ok urls ∧
      ∀ later, (registry.run (atStart base out d) (before ++ maker :: later)).2.readText
        (name.path out) = .ok (moduleText name.text kind urls) := by
  have hread {contents : ByteArray} (hread : u.2.read (name.path out) = .ok contents) :=
    registry_lawful.read_run_of_new h hkey hnew hread
  have hbase := base_run base out d before
  have hout : (registry.run (atStart base out d) before).1.out = out :=
    (registry_lawful.directories_run before).2
  generalize registry.run (atStart base out d) before = s at h hkey hnew hbase hout ⊢
  obtain ⟨t, d'⟩ := u
  obtain ⟨handle, hadd, rfl⟩ := serve_eq_ok_iff.1 h
  obtain ⟨hkind, made, hplaces, hcases⟩ := add_cases hadd
  obtain rfl : key made = k :=
    Option.some.inj ((key?_of_places hkind hplaces).symm.trans hkey)
  rw [hbase] at hplaces
  rcases hcases with ⟨hfound, -⟩ | ⟨-, -, -, urls, hurls, hwrite, -⟩
  · rw [hnew] at hfound
    cases hfound
  · rw [hout] at hwrite
    exact ⟨handle.kind, made, urls, hkind, hplaces, rfl, hurls, fun later =>
      Disk.readText_of_read (hread (Disk.read_of_write hwrite) later)⟩

/-- All about a request that succeeds after any earlier requests, of which some may have failed.

* The module it gets was written for the first request with the same key, of the kind and with the
  images of that request, and holds this text after all later requests.
* A later request that succeeds gets the same module just if it has the same key.
* Where no name on the way to the images holds a line feed, the same key means the same kind and the
  same places. -/
theorem texture_runs {base out : Path} {d : Disk} (hcwd : d.cwd.Proper)
    {earlier : List (List String)} {files : List String} {handle : TextureHandle}
    {t : TextureLibrary × Disk}
    (h : (registry.run (atStart base out d) earlier).1.add
      (registry.run (atStart base out d) earlier).2 files = .ok (handle, t)) :
    let start := atStart base out d
    ∃ found, places (registry.run start earlier).2 base files = .ok found ∧
      (∃ before maker after kind made urls,
        earlier ++ [files] = before ++ maker :: after ∧
        TextureKind.ofCount? maker.length = some kind ∧
        places (registry.run start before).2 base maker = .ok made ∧
        made.mapM (Image.locationDataUrl (registry.run start before).2) = .ok urls ∧
        (∀ later, (registry.run start (earlier ++ files :: later)).2.readText
          (handle.name.path out) = .ok (moduleText handle.name.text kind urls)) ∧
        key made = key found ∧
        ((∀ l ∈ made ++ found, l.OneLine) → kind = handle.kind ∧ made = found)) ∧
      ∀ later files' handle' t',
        let u := registry.run start (earlier ++ files :: later)
        u.1.add u.2 files' = .ok (handle', t') →
          ∃ found', places u.2 base files' = .ok found' ∧
            (handle.name = handle'.name ↔ key found = key found') ∧
            ((∀ l ∈ found ++ found', l.OneLine) →
              (handle.name = handle'.name ↔ handle.kind = handle'.kind ∧ found = found')) := by
  intro start
  have hproper (rs : List (List String)) : (registry.run start rs).2.cwd.Proper := by
    rw [cwd_run]
    exact hcwd
  obtain ⟨hkind, found, hplaces, -⟩ := add_cases h
  have hserve : registry.serve (registry.run start earlier) files = .ok (handle.name, t) :=
    serve_eq_ok_iff.2 ⟨handle, h, rfl⟩
  have hkey : registry.key? (registry.run start earlier) files = some (key found) :=
    key?_of_places hkind hplaces
  rw [base_run] at hplaces
  refine ⟨found, hplaces, ?_, ?_⟩
  · obtain ⟨before, maker, after, u, hsplit, hmakerKey, hnew, hmaker⟩ :=
      registry_lawful.exists_maker rfl hserve hkey
    obtain ⟨kind, made, urls, hmadeKind, hmade, hsame, hurls, htext⟩ :=
      readText_run hmaker hmakerKey hnew
    refine ⟨before, maker, after, kind, made, urls, hsplit, hmadeKind, hmade, hurls,
      fun later => ?_, hsame, fun hline => ?_⟩
    · have hlater : earlier ++ files :: later = before ++ maker :: (after ++ later) := by
        rw [← List.singleton_append, ← List.append_assoc, hsplit]
        simp
      rw [hlater]
      exact htext (after ++ later)
    · rw [List.forall_mem_append] at hline
      exact (key_eq_iff (hproper _) (hproper _) hmadeKind hkind hmade hplaces hline.1 hline.2).1
        hsame
  · intro later files' handle' t' u h'
    obtain ⟨hkind', found', hplaces', -⟩ := add_cases h'
    have hserve' : registry.serve u files' = .ok (handle'.name, t') :=
      serve_eq_ok_iff.2 ⟨handle', h', rfl⟩
    have hkey' : registry.key? u files' = some (key found') := key?_of_places hkind' hplaces'
    have hbase : u.1.base = base := base_run base out d _
    rw [hbase] at hplaces'
    have hnames := registry_lawful.name_eq_iff rfl hserve hkey hserve' hkey'
    refine ⟨found', hplaces', hnames, fun hline => ?_⟩
    rw [List.forall_mem_append] at hline
    rw [hnames, key_eq_iff (hproper _) (hproper _) hkind hkind' hplaces hplaces' hline.1 hline.2]

/-- The module of the cube is written for a cube, whatever is asked for later. -/
theorem texture_runs_linedCube :
    Location.root.Proper ∧ ∃ urls, ∀ later,
      (registry.run (atStart ⟨"/"⟩ ⟨"/out"⟩ linedDisk) (linedCube :: later)).2.readText
        ⟨"/out/EXTRA_TEXTURE_0.js"⟩ = .ok (moduleText "EXTRA_TEXTURE_0" .cube urls) := by
  have hroot : Location.root.Proper := fun name hname => nomatch hname
  obtain ⟨s, h⟩ := add_linedCube
  obtain ⟨-, -, ⟨before, maker, after, kind, made, urls, hsplit, hkind, -, -, htext, -⟩, -⟩ :=
    @texture_runs ⟨"/"⟩ ⟨"/out"⟩ linedDisk hroot [] linedCube _ _ h
  obtain ⟨rfl, rfl, rfl⟩ : before = [] ∧ maker = linedCube ∧ after = [] := by
    cases before with
    | nil => simpa [eq_comm] using hsplit
    | cons first before => simp at hsplit
  cases hkind
  exact ⟨hroot, urls, htext⟩

end TextureLibrary

end SceneScript
