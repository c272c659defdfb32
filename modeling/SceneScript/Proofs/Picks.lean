import SceneScript.Proofs.Asks
import SceneScript.Proofs.Readings

/-!
# Reading before writing

A request for a module reads first and writes then. `Shelf.pick` is the first half: from the modules
that are there and the files on the disk it gives the module of the request, with the text of the
module if it is new. The second half writes this text. `Store.gives_deliver` says that a request is
made of these two halves.

The first half depends only on the files that the request names (`Order.lookups`), so disks that
read alike there give the same pick (`Shelf.pick_congr`, `Shelf.pick_eq_ok_iff`).
-/

namespace SceneScript

/-! ## Picks -/

/-- The modules that are there, by what they were made from. -/
structure Shelf where
  files : List (Location × ModuleName)
  textures : List (String × ModuleName)

/-- The module of a request, its text if it is new, and the shelf that it stands on. -/
structure Pick where
  name : ModuleName
  made : Option String
  shelf : Shelf

namespace Order

/-- The paths of the files that an order names. -/
def paths (base : Path) : Order → List Path
  | .asset file => [base.join ⟨file⟩]
  | .texture files => files.map fun file => base.join ⟨file⟩

/-- The paths of the images that an embedded material library names. -/
def images (base : Path) (d : Disk) : Order → List Path
  | .asset file => Request.imagePaths d (base.join ⟨file⟩)
  | .texture _ => []

/-- All paths that an order looks up. -/
def lookups (base : Path) (d : Disk) (o : Order) : List Path :=
  o.paths base ++ o.images base d

end Order

namespace Shelf

/-- A shelf without modules. -/
def empty : Shelf :=
  ⟨[], []⟩

/-- The modules on a shelf. -/
def modules (c : Shelf) : List ModuleName :=
  ModuleName.upTo c.files.length c.textures.length

/-- The module of a text file. -/
def pickFile (c : Shelf) (base : Path) (d : Disk) (file : String) : Except Error Pick := do
  let l ← resolveAsset d base file
  match c.files.lookup l with
  | some name => return ⟨name, none, c⟩
  | none =>
    let name := ModuleName.file c.files.length
    let text ← Embedder.content d l
    return ⟨name, some (Embedder.moduleText name.text text),
      { c with files := c.files ++ [(l, name)] }⟩

/-- The module of a set of images. -/
def pickTexture (c : Shelf) (base : Path) (d : Disk) (files : List String) : Except Error Pick :=
  match TextureKind.ofCount? files.length with
  | none => .error (.invalidTextureSet files.length)
  | some kind => do
    let found ← TextureLibrary.places d base files
    match c.textures.lookup (TextureLibrary.key found) with
    | some name => return ⟨name, none, c⟩
    | none =>
      let name := ModuleName.texture c.textures.length
      let urls ← found.mapM (Image.locationDataUrl d)
      return ⟨name, some (TextureLibrary.moduleText name.text kind urls),
        { c with textures := c.textures ++ [(TextureLibrary.key found, name)] }⟩

/-- The module of an order, as it follows from the modules that are there and the files of a
disk. -/
def pick (c : Shelf) (base : Path) (d : Disk) : Order → Except Error Pick
  | .asset file => c.pickFile base d file
  | .texture files => c.pickTexture base d files

variable {c : Shelf} {base : Path} {d e : Disk} {o : Order} {k : Pick}

theorem pickFile_eq_ok {file : String} (h : c.pickFile base d file = .ok k) :
    ∃ l, resolveAsset d base file = .ok l ∧
      (c.files.lookup l = some k.name ∧ k = ⟨k.name, none, c⟩ ∨
        c.files.lookup l = none ∧ ∃ text, Embedder.content d l = .ok text ∧
          k = ⟨.file c.files.length,
            some (Embedder.moduleText (ModuleName.file c.files.length).text text),
            { c with files := c.files ++ [(l, .file c.files.length)] }⟩) := by
  obtain ⟨l, hl, h⟩ := except_bind_eq_ok.1 h
  refine ⟨l, hl, ?_⟩
  cases hname : c.files.lookup l with
  | some name =>
    rw [hname] at h
    cases h
    exact .inl ⟨rfl, rfl⟩
  | none =>
    rw [hname] at h
    obtain ⟨text, htext, h⟩ := except_bind_eq_ok.1 h
    cases h
    exact .inr ⟨rfl, text, htext, rfl⟩

theorem pickTexture_eq_ok {files : List String} (h : c.pickTexture base d files = .ok k) :
    ∃ kind found, TextureKind.ofCount? files.length = some kind ∧
      TextureLibrary.places d base files = .ok found ∧
      (c.textures.lookup (TextureLibrary.key found) = some k.name ∧ k = ⟨k.name, none, c⟩ ∨
        c.textures.lookup (TextureLibrary.key found) = none ∧
          ∃ urls, found.mapM (Image.locationDataUrl d) = .ok urls ∧
            k = ⟨.texture c.textures.length,
              some (TextureLibrary.moduleText (ModuleName.texture c.textures.length).text kind
                urls),
              { c with textures := c.textures ++
                  [(TextureLibrary.key found, .texture c.textures.length)] }⟩) := by
  unfold pickTexture at h
  cases hkind : TextureKind.ofCount? files.length with
  | none => simp [hkind] at h
  | some kind =>
    rw [hkind] at h
    obtain ⟨found, hfound, h⟩ := except_bind_eq_ok.1 h
    refine ⟨kind, found, rfl, hfound, ?_⟩
    cases hname : c.textures.lookup (TextureLibrary.key found) with
    | some name =>
      rw [hname] at h
      cases h
      exact .inl ⟨rfl, rfl⟩
    | none =>
      rw [hname] at h
      obtain ⟨urls, hurls, h⟩ := except_bind_eq_ok.1 h
      cases h
      exact .inr ⟨rfl, urls, hurls, rfl⟩

/-- A pick either finds its module, and the shelf stays, or puts a new module on the shelf. -/
theorem pick_cases (h : c.pick base d o = .ok k) :
    k.made = none ∧ k.shelf = c ∨
      ∃ text, k.made = some text ∧ k.name ∉ c.modules ∧
        ∀ other, other ∈ k.shelf.modules ↔ other ∈ c.modules ∨ other = k.name := by
  cases o with
  | asset file =>
    obtain ⟨l, -, ⟨-, hk⟩ | ⟨-, text, -, hk⟩⟩ := pickFile_eq_ok h
    · rw [hk]
      exact .inl ⟨rfl, rfl⟩
    · rw [hk]
      refine .inr ⟨_, rfl, by simp [modules, ModuleName.upTo], fun other => ?_⟩
      simp [modules, ModuleName.upTo, List.range_succ, or_comm, or_left_comm]
  | texture files =>
    obtain ⟨kind, found, -, -, ⟨-, hk⟩ | ⟨-, urls, -, hk⟩⟩ := pickTexture_eq_ok h
    · rw [hk]
      exact .inl ⟨rfl, rfl⟩
    · rw [hk]
      refine .inr ⟨_, rfl, by simp [modules, ModuleName.upTo], fun other => ?_⟩
      simp [modules, ModuleName.upTo, List.range_succ, or_assoc]

/-! ## Picks from disks that read alike -/

/-- The pick is the same if the named files are, and the text of the file to embed. -/
theorem pick_congr (hpaths : ∀ p ∈ o.paths base, d.SameAt e p)
    (hcontent : ∀ file l, o = .asset file → d.locate (base.join ⟨file⟩) = .ok l →
      c.files.lookup l = none → Embedder.content e l = Embedder.content d l) :
    c.pick base e o = c.pick base d o := by
  cases o with
  | asset file =>
    have hfile := hpaths _ (List.mem_singleton_self _)
    simp only [pick, pickFile, hfile.resolveAsset, bind, Except.bind]
    cases hl : resolveAsset d base file with
    | error err => rfl
    | ok l =>
      dsimp only
      cases hname : c.files.lookup l with
      | some name => rfl
      | none => simp only [hcontent file l rfl (resolveAsset_eq_ok.1 hl) hname]
  | texture files =>
    have hfiles : ∀ file ∈ files, d.SameAt e (base.join ⟨file⟩) :=
      fun file hfile => hpaths _ (List.mem_map_of_mem hfile)
    simp only [pick, pickTexture, TextureLibrary.places_congr hfiles, bind, Except.bind]
    cases TextureKind.ofCount? files.length with
    | none => rfl
    | some kind =>
      dsimp only
      cases hfound : TextureLibrary.places d base files with
      | error err => rfl
      | ok found => simp only [TextureLibrary.urls_congr hfound hfiles]

/-- A pick that succeeds has found the files that the order names, and has read a file that it
embeds. -/
theorem located_of_pick (h : c.pick base d o = .ok k) :
    (∀ p ∈ o.paths base, ∃ l, d.locate p = .ok l) ∧
      ∀ file l, o = .asset file → d.locate (base.join ⟨file⟩) = .ok l →
        c.files.lookup l = none → ∃ text, Embedder.content d l = .ok text := by
  cases o with
  | asset file =>
    obtain ⟨l, hl, hcases⟩ := pickFile_eq_ok h
    rw [resolveAsset_eq_ok] at hl
    refine ⟨fun p hp => ⟨l, List.mem_singleton.1 hp ▸ hl⟩, fun file' m hfile hm hname => ?_⟩
    cases hfile
    obtain rfl := Except.ok.inj (hl.symm.trans hm)
    rcases hcases with ⟨hfound, -⟩ | ⟨-, text, htext, -⟩
    · rw [hname] at hfound
      cases hfound
    · exact ⟨text, htext⟩
  | texture files =>
    obtain ⟨kind, found, -, hfound, -⟩ := pickTexture_eq_ok h
    refine ⟨fun p hp => ?_, fun file l hfile => by cases hfile⟩
    obtain ⟨file, hfile, rfl⟩ := List.mem_map.1 hp
    exact (TextureLibrary.locate_of_places hfound).1 file hfile

/-- A pick that succeeds is the same on a disk that has grown, if what the order looks up and finds
is the same there. -/
theorem pick_eq_ok_iff (hgrows : d.Grows e)
    (hsame : ∀ p ∈ o.lookups base d, ∀ l, e.locate p = .ok l → d.SameAt e p) :
    c.pick base e o = .ok k ↔ c.pick base d o = .ok k := by
  have himages {file : String} {l : Location} (hfile : o = .asset file)
      (hp : d.SameAt e (base.join ⟨file⟩)) (hl : d.locate (base.join ⟨file⟩) = .ok l)
      (hread : ∀ q ∈ Request.imagePaths d (base.join ⟨file⟩), ∃ m, e.locate q = .ok m) :
      Embedder.content e l = Embedder.content d l := by
    refine Embedder.content_congr hl hp fun q hq => ?_
    obtain ⟨m, hm⟩ := hread q hq
    exact hsame q (List.mem_append_right _ (hfile ▸ hq)) m hm
  constructor
  · intro h
    obtain ⟨hpaths, hcontent⟩ := located_of_pick h
    have hp : ∀ p ∈ o.paths base, d.SameAt e p := fun p hp =>
      (hpaths p hp).elim fun l hl => hsame p (List.mem_append_left _ hp) l hl
    rw [← h]
    refine (pick_congr hp fun file l hfile hl hname => ?_).symm
    have hsamefile := hp (base.join ⟨file⟩) (hfile ▸ List.mem_singleton_self _)
    have hl' : e.locate (base.join ⟨file⟩) = .ok l := hsamefile.locate.trans hl
    obtain ⟨text, htext⟩ := hcontent file l hfile hl' hname
    refine himages hfile hsamefile hl fun q hq => ?_
    rw [← hsamefile.imagePaths] at hq
    exact Embedder.locate_of_content hl' htext hq
  · intro h
    obtain ⟨hpaths, hcontent⟩ := located_of_pick h
    have hp : ∀ p ∈ o.paths base, d.SameAt e p := fun p hp =>
      (hpaths p hp).elim fun l hl => hsame p (List.mem_append_left _ hp) l (hgrows.locate hl)
    rw [← h]
    refine pick_congr hp fun file l hfile hl hname => ?_
    obtain ⟨text, htext⟩ := hcontent file l hfile hl hname
    refine himages hfile (hp _ (hfile ▸ List.mem_singleton_self _)) hl fun q hq => ?_
    obtain ⟨m, hm⟩ := Embedder.locate_of_content hl htext hq
    exact ⟨m, hgrows.locate hm⟩

end Shelf

/-! ## Deliveries -/

namespace Store

/-- The modules of a store as a shelf. -/
def shelf (s : Store) : Shelf :=
  ⟨s.embedder.cached, s.textures.cached⟩

@[simp]
theorem shelf_files (s : Store) : s.shelf.files = s.embedder.cached := rfl

@[simp]
theorem shelf_textures (s : Store) : s.shelf.textures = s.textures.cached := rfl

/-- A store looks files up from one directory and keeps its modules in another. -/
structure Rooted (base out : Path) (s : Store) : Prop extends At out s where
  embedderBase : s.embedder.base = base
  texturesBase : s.textures.base = base

theorem rooted_new (base out : Path) (d : Disk) : (new base out d).Rooted base out :=
  ⟨⟨rfl, rfl⟩, rfl, rfl⟩

theorem not_mem_modules_new (base out : Path) (d : Disk) (name : ModuleName) :
    name ∉ (new base out d).modules := by
  simp [modules, ModuleName.upTo, new, Embedder.size, Embedder.new, TextureLibrary.size,
    TextureLibrary.new]

/-- The module of an order, with the store that has it. -/
def deliver (s : Store) : Order → Except Error (ModuleName × Store)
  | .asset file =>
    (s.embedder.embed s.disk file).map fun answer =>
      (answer.1, ⟨answer.2.1, s.textures, answer.2.2⟩)
  | .texture files =>
    (s.textures.add s.disk files).map fun answer =>
      (answer.1.name, ⟨s.embedder, answer.2.1, answer.2.2⟩)

/-- What an order comes to: it reads, and then it writes the file of a new module. -/
inductive Gives (base out : Path) (s : Store) (o : Order) : Except Error (ModuleName × Store) → Prop
  | refused {err : Error} (hpick : s.shelf.pick base s.disk o = .error err) :
    Gives base out s o (.error err)
  | found {k : Pick} (hpick : s.shelf.pick base s.disk o = .ok k) (hmade : k.made = none) :
    Gives base out s o (.ok (k.name, s))
  | unwritten {k : Pick} {text : String} {err : Error}
    (hpick : s.shelf.pick base s.disk o = .ok k) (hmade : k.made = some text)
    (hwrite : writeGenerated s.disk (k.name.path out) text = .error err) :
    Gives base out s o (.error err)
  | made {k : Pick} {text : String} {t : Store} (hpick : s.shelf.pick base s.disk o = .ok k)
    (hmade : k.made = some text)
    (hwrite : writeGenerated s.disk (k.name.path out) text = .ok t.disk)
    (hshelf : t.shelf = k.shelf) (hrooted : t.Rooted base out) :
    Gives base out s o (.ok (k.name, t))

variable {base out : Path} {s t : Store} {o : Order} {k : Pick} {name : ModuleName}

theorem gives_asset (h : s.Rooted base out) (file : String) :
    s.Gives base out (.asset file) (s.deliver (.asset file)) := by
  have hpick : s.shelf.pick base s.disk (.asset file) = s.shelf.pickFile base s.disk file := rfl
  rw [Shelf.pickFile] at hpick
  rw [deliver, Embedder.embed, h.embedderBase, h.embedder]
  cases hl : resolveAsset s.disk base file with
  | error err =>
    rw [hl] at hpick
    exact .refused hpick
  | ok l =>
    rw [hl] at hpick
    simp only [Embedder.find?, shelf_files, bind, Except.bind] at hpick ⊢
    cases hname : s.embedder.cached.lookup l with
    | some name =>
      simp only [hname] at hpick ⊢
      exact .found hpick rfl
    | none =>
      simp only [hname] at hpick ⊢
      cases htext : Embedder.content s.disk l with
      | error err =>
        rw [htext] at hpick
        exact .refused hpick
      | ok text =>
        simp only [htext] at hpick ⊢
        cases hwrite : writeGenerated s.disk ((ModuleName.file s.embedder.size).path out)
            (Embedder.moduleText (ModuleName.file s.embedder.size).text text) with
        | error err => exact .unwritten hpick rfl hwrite
        | ok d => exact .made hpick rfl hwrite rfl ⟨⟨rfl, h.textures⟩, rfl, h.texturesBase⟩

theorem gives_texture (h : s.Rooted base out) (files : List String) :
    s.Gives base out (.texture files) (s.deliver (.texture files)) := by
  have hpick : s.shelf.pick base s.disk (.texture files) =
      s.shelf.pickTexture base s.disk files := rfl
  rw [Shelf.pickTexture] at hpick
  rw [deliver, TextureLibrary.add, h.texturesBase, h.textures]
  cases hkind : TextureKind.ofCount? files.length with
  | none =>
    rw [hkind] at hpick
    exact .refused hpick
  | some kind =>
    rw [hkind] at hpick
    cases hfound : TextureLibrary.places s.disk base files with
    | error err =>
      rw [hfound] at hpick
      exact .refused hpick
    | ok found =>
      rw [hfound] at hpick
      simp only [shelf_textures, bind, Except.bind] at hpick ⊢
      cases hname : s.textures.cached.lookup (TextureLibrary.key found) with
      | some name =>
        simp only [hname] at hpick ⊢
        exact .found hpick rfl
      | none =>
        simp only [hname] at hpick ⊢
        cases hurls : found.mapM (Image.locationDataUrl s.disk) with
        | error err =>
          rw [hurls] at hpick
          exact .refused hpick
        | ok urls =>
          simp only [hurls] at hpick ⊢
          cases hwrite : writeGenerated s.disk ((ModuleName.texture s.textures.size).path out)
              (TextureLibrary.moduleText (ModuleName.texture s.textures.size).text kind urls) with
          | error err => exact .unwritten hpick rfl hwrite
          | ok d => exact .made hpick rfl hwrite rfl ⟨⟨h.embedder, rfl⟩, h.embedderBase, rfl⟩

/-- A request reads first and writes then. -/
theorem gives_deliver (h : s.Rooted base out) (o : Order) : s.Gives base out o (s.deliver o) := by
  cases o with
  | asset file => exact gives_asset h file
  | texture files => exact gives_texture h files

/-- An order that succeeds has picked its module. If the module was there, nothing changes, and
otherwise it is written. -/
theorem deliver_eq_ok (h : s.Rooted base out) (hdeliver : s.deliver o = .ok (name, t)) :
    ∃ k, s.shelf.pick base s.disk o = .ok k ∧ name = k.name ∧ t.Rooted base out ∧
      t.shelf = k.shelf ∧
      (k.made = none ∧ t = s ∨
        ∃ text, k.made = some text ∧ s.disk.write (k.name.path out) text.toUTF8 = .ok t.disk ∧
          k.name ∉ s.modules ∧
          ∀ other, other ∈ t.modules ↔ other ∈ s.modules ∨ other = k.name) := by
  have hgives := gives_deliver h o
  rw [hdeliver] at hgives
  cases hgives with
  | @found k hpick hmade =>
    rcases Shelf.pick_cases hpick with ⟨-, hshelf⟩ | ⟨text, htext, -⟩
    · exact ⟨k, hpick, rfl, h, hshelf.symm, .inl ⟨hmade, rfl⟩⟩
    · rw [hmade] at htext
      cases htext
  | @made k text t hpick hmade hwrite hshelf hrooted =>
    rcases Shelf.pick_cases hpick with ⟨hnone, -⟩ | ⟨-, -, hfresh, hmodules⟩
    · rw [hmade] at hnone
      cases hnone
    · rw [← hshelf] at hmodules
      exact ⟨k, hpick, rfl, hrooted, hshelf,
        .inr ⟨text, hmade, writeGenerated_eq_ok.1 hwrite, hfresh, hmodules⟩⟩

/-- An order succeeds if its module can be picked and, if it is new, written. -/
theorem deliver_of_pick (h : s.Rooted base out) (hpick : s.shelf.pick base s.disk o = .ok k)
    (hwrite : ∀ text, k.made = some text →
      ∃ d, s.disk.write (k.name.path out) text.toUTF8 = .ok d) :
    ∃ t, s.deliver o = .ok (k.name, t) := by
  have hgives := gives_deliver h o
  cases hdeliver : s.deliver o with
  | ok answer =>
    obtain ⟨name, t⟩ := answer
    obtain ⟨k', hk', rfl, -⟩ := deliver_eq_ok h hdeliver
    obtain rfl := Except.ok.inj (hpick.symm.trans hk')
    exact ⟨t, rfl⟩
  | error err =>
    rw [hdeliver] at hgives
    cases hgives with
    | refused hrefused =>
      rw [hpick] at hrefused
      cases hrefused
    | @unwritten k' text _ hk' hmade hrefused =>
      obtain rfl := Except.ok.inj (hpick.symm.trans hk')
      obtain ⟨d, hd⟩ := hwrite text hmade
      rw [writeGenerated_eq_ok.2 hd] at hrefused
      cases hrefused

end Store

end SceneScript
