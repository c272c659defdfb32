import Mathlib.Data.List.Forall2
import SceneScript.Proofs.Registry

/-!
# Texture requests up to order and spelling

The places of the images of a request are put in order, so a request depends on them only as a
multiset (`add_eq_of_perm`). `TextureLibrary.Later` says how a library and its disk may go on, and
`Later.add_eq`: a request for images that have a module gets that module at every later time, and
nothing changes. `texture_sets` puts this together with the requests that are refused.
-/

namespace SceneScript

/-! ## The order of places -/

namespace Location

theorem namesLe_total (a b : List String) : (namesLe a b || namesLe b a) = true := by
  induction a generalizing b with
  | nil => simp [namesLe]
  | cons x a ih =>
    cases b with
    | nil => simp [namesLe]
    | cons y b =>
      by_cases hxy : x < y
      · simp [namesLe, hxy]
      · by_cases hyx : y < x
        · simp [namesLe, hyx]
        · obtain rfl : x = y := String.le_antisymm (String.not_lt.1 hyx) (String.not_lt.1 hxy)
          simpa [namesLe, hxy] using ih b

theorem namesLe_cons_iff {x y : String} {a b : List String} :
    namesLe (x :: a) (y :: b) = true ↔ x < y ∨ x = y ∧ namesLe a b = true := by
  simp [namesLe]

theorem namesLe_trans {a b c : List String} (hab : namesLe a b = true)
    (hbc : namesLe b c = true) : namesLe a c = true := by
  induction a generalizing b c with
  | nil => rfl
  | cons x a ih =>
    cases b with
    | nil => simp [namesLe] at hab
    | cons y b =>
      cases c with
      | nil => simp [namesLe] at hbc
      | cons z c =>
        rw [namesLe_cons_iff] at hab hbc ⊢
        rcases hab with hxy | ⟨rfl, hab⟩
        · rcases hbc with hyz | ⟨rfl, -⟩
          · exact .inl (String.lt_trans hxy hyz)
          · exact .inl hxy
        · rcases hbc with hyz | ⟨rfl, hbc⟩
          · exact .inl hyz
          · exact .inr ⟨rfl, ih hab hbc⟩

theorem namesLe_antisymm {a b : List String} (hab : namesLe a b = true)
    (hba : namesLe b a = true) : a = b := by
  induction a generalizing b with
  | nil =>
    cases b with
    | nil => rfl
    | cons y b => simp [namesLe] at hba
  | cons x a ih =>
    cases b with
    | nil => simp [namesLe] at hab
    | cons y b =>
      rw [namesLe_cons_iff] at hab hba
      rcases hab with hxy | ⟨rfl, hab⟩
      · rcases hba with hyx | ⟨rfl, -⟩
        · exact absurd hyx (String.lt_asymm hxy)
        · exact absurd hxy (String.lt_irrefl _)
      · rcases hba with hyx | ⟨-, hba⟩
        · exact absurd hyx (String.lt_irrefl _)
        · rw [ih hab hba]

theorem le_total (a b : Location) : (le a b || le b a) = true :=
  namesLe_total a.names b.names

theorem le_trans (a b c : Location) (hab : le a b = true) (hbc : le b c = true) :
    le a c = true :=
  namesLe_trans hab hbc

theorem le_antisymm {a b : Location} (hab : le a b = true) (hba : le b a = true) : a = b := by
  have hnames : a.names = b.names := namesLe_antisymm hab hba
  obtain ⟨names⟩ := a
  rw [show names = b.names from hnames]

/-- The order of places does not depend on the order in which they were given. -/
theorem mergeSort_eq_of_perm {ls ms : List Location} (h : ls.Perm ms) :
    ls.mergeSort le = ms.mergeSort le := by
  refine List.Perm.eq_of_pairwise (fun _ _ _ _ => le_antisymm)
    (List.pairwise_mergeSort le_trans le_total ls) (List.pairwise_mergeSort le_trans le_total ms) ?_
  exact (List.mergeSort_perm ls le).trans (h.trans (List.mergeSort_perm ms le).symm)

end Location

namespace TextureLibrary

/-! ## One request -/

/-- Results that are had one after the other. -/
theorem mapM_eq_ok_iff {ε α β : Type} {f : α → Except ε β} {as : List α} {bs : List β} :
    as.mapM f = .ok bs ↔ List.Forall₂ (fun a b => f a = .ok b) as bs := by
  induction as generalizing bs with
  | nil => simp [pure, Except.pure, eq_comm]
  | cons a as ih =>
    rw [List.mapM_cons, except_bind_eq_ok]
    constructor
    · rintro ⟨b, hb, hrest⟩
      obtain ⟨bs', hbs', hdone⟩ := except_bind_eq_ok.1 hrest
      cases hdone
      exact .cons hb (ih.1 hbs')
    · intro h
      cases h with
      | cons hb hbs => exact ⟨_, hb, except_bind_eq_ok.2 ⟨_, ih.2 hbs, rfl⟩⟩

theorem length_of_mapM {ε α β : Type} {f : α → Except ε β} {as : List α} {bs : List β}
    (h : as.mapM f = .ok bs) : bs.length = as.length :=
  (mapM_eq_ok_iff.1 h).length_eq.symm

theorem places_of_mapM {d : Disk} {base : Path} {files : List String} {ls : List Location}
    (h : files.mapM (resolveAsset d base) = .ok ls) :
    places d base files = .ok (ls.mergeSort Location.le) :=
  except_bind_eq_ok.2 ⟨ls, h, rfl⟩

/-- A request is known by the number and the places of its images. -/
theorem add_congr {t : TextureLibrary} {d : Disk} {f g : List String}
    (hlength : f.length = g.length) (hplaces : places d t.base f = places d t.base g) :
    t.add d f = t.add d g := by
  unfold add
  rw [hlength, hplaces]

/-- The order and the spelling of the images make no difference. -/
theorem add_eq_of_perm {t : TextureLibrary} {d : Disk} {f g : List String} {ls ms : List Location}
    (hf : f.mapM (resolveAsset d t.base) = .ok ls) (hg : g.mapM (resolveAsset d t.base) = .ok ms)
    (hperm : ls.Perm ms) : t.add d f = t.add d g := by
  refine add_congr ?_ ?_
  · rw [← length_of_mapM hf, ← length_of_mapM hg, hperm.length_eq]
  · rw [places_of_mapM hf, places_of_mapM hg, Location.mergeSort_eq_of_perm hperm]

/-- Images that have a module get it again, and nothing changes. -/
theorem add_of_cached {t : TextureLibrary} {d : Disk} {files : List String} {kind : TextureKind}
    {found : List Location} {name : ModuleName}
    (hkind : TextureKind.ofCount? files.length = some kind)
    (hplaces : places d t.base files = .ok found)
    (hname : t.cached.lookup (key found) = some name) :
    t.add d files = .ok (⟨name, kind, false⟩, t, d) := by
  simp only [add, hkind, hplaces, hname, bind, Except.bind, pure, Except.pure]

/-- New images get the next module, if it can be written. -/
theorem add_of_miss {t : TextureLibrary} {d : Disk} {files urls : List String} {kind : TextureKind}
    {found : List Location} (hkind : TextureKind.ofCount? files.length = some kind)
    (hplaces : places d t.base files = .ok found) (hnew : t.cached.lookup (key found) = none)
    (hurls : found.mapM (Image.locationDataUrl d) = .ok urls) :
    t.add d files = (writeGenerated d ((ModuleName.texture t.size).path t.out)
      (moduleText (ModuleName.texture t.size).text kind urls)).map fun d' =>
        (⟨.texture t.size, kind, true⟩,
          { t with
            cached := t.cached ++ [(key found, .texture t.size)]
            written := t.written ++ [(ModuleName.texture t.size).path t.out] }, d') := by
  simp only [add, hkind, hplaces, hnew, hurls, bind, Except.bind, pure, Except.pure]
  generalize writeGenerated d _ _ = result
  cases result <;> rfl

theorem add_of_new {t : TextureLibrary} {d d' : Disk} {files urls : List String}
    {kind : TextureKind} {found : List Location}
    (hkind : TextureKind.ofCount? files.length = some kind)
    (hplaces : places d t.base files = .ok found) (hnew : t.cached.lookup (key found) = none)
    (hurls : found.mapM (Image.locationDataUrl d) = .ok urls)
    (hwrite : writeGenerated d ((ModuleName.texture t.size).path t.out)
      (moduleText (ModuleName.texture t.size).text kind urls) = .ok d') :
    t.add d files = .ok (⟨.texture t.size, kind, true⟩,
      { t with
        cached := t.cached ++ [(key found, .texture t.size)]
        written := t.written ++ [(ModuleName.texture t.size).path t.out] }, d') := by
  rw [add_of_miss hkind hplaces hnew hurls, hwrite]
  rfl

/-- A number of images other than one and six is refused, whatever the disk holds. -/
theorem add_of_count {t : TextureLibrary} {d : Disk} {files : List String}
    (hone : files.length ≠ 1) (hcube : files.length ≠ cubeFaces) :
    t.add d files = .error (.invalidTextureSet files.length) := by
  have hkind : TextureKind.ofCount? files.length = none := by
    simp [TextureKind.ofCount?, hone, hcube]
  simp only [add, hkind]
  rfl

/-! ## Libraries as registries -/

/-- Libraries at work on a disk, with the keys of requests as keys. -/
def registry : Registry (TextureLibrary × Disk) (List String) String where
  serve s files := (s.1.add s.2 files).map fun answer => (answer.1.name, answer.2)
  key? s files :=
    if (TextureKind.ofCount? files.length).isSome then
      (places s.2 s.1.base files).toOption.map key
    else none
  cached s := s.1.cached
  base s := s.1.base
  out s := s.1.out
  disk s := s.2

variable {s s' : TextureLibrary × Disk} {files : List String}

theorem serve_eq_ok_iff {name : ModuleName} :
    registry.serve s files = .ok (name, s') ↔
      ∃ handle, s.1.add s.2 files = .ok (handle, s') ∧ handle.name = name := by
  simp only [registry]
  cases s.1.add s.2 files with
  | error e => simp [Except.map]
  | ok answer =>
    obtain ⟨handle, u⟩ := answer
    simp [Except.map, and_comm]

theorem key?_of_places {kind : TextureKind} {found : List Location}
    (hkind : TextureKind.ofCount? files.length = some kind)
    (hplaces : places s.2 s.1.base files = .ok found) :
    registry.key? s files = some (key found) := by
  simp [registry, hkind, hplaces, Except.toOption]

theorem registry_lawful : registry.Lawful .texture where
  make_injective _ _ h := ModuleName.texture.inj h
  serve_cases := by
    rintro s ⟨t, d⟩ files name h
    obtain ⟨handle, hadd, rfl⟩ := serve_eq_ok_iff.1 h
    obtain ⟨hkind, found, hplaces, hcases⟩ := add_cases hadd
    refine ⟨key found, key?_of_places hkind hplaces, ?_⟩
    rcases hcases with ⟨hname, -, rfl, rfl⟩ | ⟨hnew, -, hname, urls, -, hwrite, rfl⟩
    · exact .inl ⟨hname, rfl⟩
    · exact .inr ⟨hnew, hname, rfl, rfl, rfl, _, hwrite⟩

theorem after_of_ok {handle : TextureHandle} (h : s.1.add s.2 files = .ok (handle, s')) :
    registry.after s files = s' := by
  simp [Registry.after, serve_eq_ok_iff.2 ⟨handle, h, rfl⟩]

theorem after_of_error {e : Error} (h : s.1.add s.2 files = .error e) :
    registry.after s files = s := by
  simp [Registry.after, registry, h, Except.map]

/-! ## Later requests -/

/-- A library and its disk may go on: requests are made, of which some may fail, and others may put
files and directories on the disk. -/
inductive Later (s : TextureLibrary × Disk) : TextureLibrary × Disk → Prop
  | now : Later s s
  | request {u : TextureLibrary × Disk} (files : List String) :
    Later s u → Later s (registry.after u files)
  | growth {t : TextureLibrary} {d d' : Disk} :
    Later s (t, d) → Disk.Grows d d' → Later s (t, d')

/-- What a library knows it goes on to know, and what stands on the disk stays there. -/
structure Extends (s u : TextureLibrary × Disk) : Prop where
  base : u.1.base = s.1.base
  cached {k : String} {name : ModuleName} :
    s.1.cached.lookup k = some name → u.1.cached.lookup k = some name
  disk : Disk.Grows s.2 u.2

theorem extends_after (s : TextureLibrary × Disk) (files : List String) :
    Extends s (registry.after s files) := by
  cases h : s.1.add s.2 files with
  | error e =>
    rw [after_of_error h]
    exact ⟨rfl, id, .refl _⟩
  | ok answer =>
    obtain ⟨handle, t, d⟩ := answer
    rw [after_of_ok h]
    obtain ⟨-, found, -, ⟨-, -, rfl, rfl⟩ | ⟨-, -, -, urls, -, hwrite, rfl⟩⟩ := add_cases h
    · exact ⟨rfl, id, .refl _⟩
    · refine ⟨rfl, fun hk => ?_, Disk.write_grows hwrite⟩
      simp [List.lookup_append, hk]

theorem Later.extends (h : Later s s') : Extends s s' := by
  induction h with
  | now => exact ⟨rfl, id, .refl _⟩
  | @request u files _ ih =>
    have step := extends_after u files
    exact ⟨step.base.trans ih.base, fun hk => step.cached (ih.cached hk), ih.disk.trans step.disk⟩
  | growth _ hgrows ih => exact ⟨ih.base, ih.cached, ih.disk.trans hgrows⟩

/-- Files that lead somewhere lead to the same places on a disk that has grown. -/
theorem mapM_of_grows {d d' : Disk} (h : Disk.Grows d d') {base : Path} {ls : List Location}
    (hfiles : files.mapM (resolveAsset d base) = .ok ls) :
    files.mapM (resolveAsset d' base) = .ok ls := by
  refine mapM_eq_ok_iff.2 ((mapM_eq_ok_iff.1 hfiles).imp fun file l hl => ?_)
  rw [resolveAsset_eq_ok] at hl ⊢
  exact h.locate hl

/-- A later request for the same images gets the same module, and nothing changes. -/
theorem Later.add_eq {t t' t'' : TextureLibrary} {d d' d'' : Disk} {f g : List String}
    {ls ms : List Location} {handle : TextureHandle} (hlater : Later (t', d') (t'', d''))
    (h : t.add d f = .ok (handle, t', d')) (hf : f.mapM (resolveAsset d t.base) = .ok ls)
    (hg : g.mapM (resolveAsset d t.base) = .ok ms) (hperm : ls.Perm ms) :
    t''.add d'' g = .ok (⟨handle.name, handle.kind, false⟩, t'', d'') := by
  have hafter : registry.after (t, d) f = (t', d') := after_of_ok h
  have hfirst : Extends (t, d) (t', d') := hafter ▸ extends_after (t, d) f
  have hrest := hlater.extends
  have hbase : t''.base = t.base := hrest.base.trans hfirst.base
  obtain ⟨hkind, -⟩ := add_cases h
  have hlength : f.length = g.length := by
    rw [← length_of_mapM hf, ← length_of_mapM hg, hperm.length_eq]
  have hplaces : places d'' t''.base g = .ok (ls.mergeSort Location.le) := by
    rw [hbase, Location.mergeSort_eq_of_perm hperm]
    exact places_of_mapM (mapM_of_grows (hfirst.disk.trans hrest.disk) hg)
  have hserve : registry.serve (t, d) f = .ok (handle.name, t', d') :=
    serve_eq_ok_iff.2 ⟨handle, h, rfl⟩
  have hkey : registry.key? (t, d) f = some (key (ls.mergeSort Location.le)) :=
    key?_of_places hkind (places_of_mapM hf)
  have hname := hrest.cached (registry_lawful.lookup_of_serve hserve hkey)
  exact add_of_cached (hlength ▸ hkind) hplaces hname

/-- Requests for the same images, in whatever order and spelling, cannot be told apart: they give
the same answer or the same error and leave the same library and the same disk, and once one of them
has succeeded, each later one gets the same module and changes nothing. A number of images other
than one and six is refused before the disk is looked at, and a request that fails changes
nothing, nor does the step of an emission that makes it. -/
theorem texture_sets (t : TextureLibrary) (d : Disk) :
    (∀ f g ls ms, f.mapM (resolveAsset d t.base) = .ok ls →
      g.mapM (resolveAsset d t.base) = .ok ms → ls.Perm ms →
        t.add d f = t.add d g ∧
          ∀ handle t' d', t.add d f = .ok (handle, t', d') →
            ∀ t'' d'', Later (t', d') (t'', d'') →
              t''.add d'' g = .ok (⟨handle.name, handle.kind, false⟩, t'', d'')) ∧
      (∀ files, files.length ≠ 1 → files.length ≠ cubeFaces →
        t.add d files = .error (.invalidTextureSet files.length)) ∧
      ∀ files e, t.add d files = .error e →
        registry.after (t, d) files = (t, d) ∧
          ∀ s : Session, s.textures = t → s.disk = d →
            (Emit.texture files).run s = .error e s := by
  refine ⟨fun f g ls ms hf hg hperm => ⟨add_eq_of_perm hf hg hperm, ?_⟩, fun files => add_of_count,
    fun files e h => ⟨after_of_error h, ?_⟩⟩
  · intro handle t' d' h t'' d'' hlater
    exact hlater.add_eq h hf hg hperm
  · rintro s rfl rfl
    rw [Emit.run_texture, h]

/-- A disk with two images. -/
def hillDisk : Disk where
  cwd := .root
  nodes :=
    [(⟨["ground"]⟩, .file "G".toUTF8), (⟨["sky"]⟩, .file "S".toUTF8), (⟨["out"]⟩, .directory)]

/-- A cube of ground below and sky above. -/
def hillCube : List String :=
  ["ground", "ground", "ground", "sky", "sky", "sky"]

/-- The same faces in another order and in other spellings. -/
def turnedCube : List String :=
  ["sky", "./ground", "out/../sky", "ground", "/ground", "/out/../sky"]

theorem mapM_hillCube : hillCube.mapM (resolveAsset hillDisk ⟨"/"⟩) =
    .ok (List.replicate 3 ⟨["ground"]⟩ ++ List.replicate 3 ⟨["sky"]⟩) :=
  rfl

theorem add_hillCube :
    ∃ s, (new ⟨"/"⟩ ⟨"/out"⟩).add hillDisk hillCube = .ok (⟨.texture 0, .cube, true⟩, s) := by
  have hplaces := places_of_mapM mapM_hillCube
  rw [List.mergeSort_of_pairwise (by decide)] at hplaces
  exact ⟨_, add_of_new rfl hplaces rfl rfl rfl⟩

/-- Both cubes get the first module, whichever is asked for first, and after a request for one of
their images alone the turned one still gets the first module and changes nothing. -/
theorem texture_sets_turnedCube :
    let t := new ⟨"/"⟩ ⟨"/out"⟩
    ∃ s, t.add hillDisk hillCube = .ok (⟨.texture 0, .cube, true⟩, s) ∧
      t.add hillDisk turnedCube = .ok (⟨.texture 0, .cube, true⟩, s) ∧
      let u := registry.after s ["sky"]
      u.1.add u.2 turnedCube = .ok (⟨.texture 0, .cube, false⟩, u) := by
  intro t
  have hturned : turnedCube.mapM (resolveAsset hillDisk ⟨"/"⟩) =
      .ok [⟨["sky"]⟩, ⟨["ground"]⟩, ⟨["sky"]⟩, ⟨["ground"]⟩, ⟨["ground"]⟩, ⟨["sky"]⟩] := rfl
  obtain ⟨s, hadd⟩ := add_hillCube
  obtain ⟨hsets, -⟩ := texture_sets t hillDisk
  obtain ⟨hsame, hlater⟩ := hsets hillCube turnedCube _ _ mapM_hillCube hturned (by decide)
  exact ⟨s, hadd, hsame ▸ hadd, hlater _ _ _ hadd _ _ (.request ["sky"] .now)⟩

end TextureLibrary

end SceneScript
