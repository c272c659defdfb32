import SceneScript.Proofs.TextureKeys

/-!
# The modules that a session delivers

A session makes its modules on request, of both kinds in turn, and all of them go to one directory.
`Store` is the part of a session that this concerns, and `Store.Delivers` is a request that
succeeds: it either finds its module or makes the next one (`Delivers.found_or_made`).

`Stocked` says what follows for all requests of a session together. The modules are those of the
distinct files and of the distinct keys of sets of images, in the order of the requests. Each stands
in its file as it was made, whatever has been written after it, and no other file has changed. An
emission does nothing to a store but ask for modules, whether it succeeds or fails
(`keeps_delivered_assemble`).
-/

namespace SceneScript

/-! ## Requests that succeed -/

/-- The embedded files, the textures and the disk that they stand on. -/
structure Store where
  embedder : Embedder
  textures : TextureLibrary
  disk : Disk

/-- The store of a session. -/
def Session.store (s : Session) : Store :=
  ⟨s.embedder, s.textures, s.disk⟩

/-- What a module was asked for: a file, or a set of images. -/
inductive Delivery where
  | asset (place : Location)
  | images (places : List Location)

namespace Delivery

/-- The place of a file. -/
def asset? : Delivery → Option Location
  | .asset place => some place
  | .images _ => none

/-- The places of a set of images. -/
def images? : Delivery → Option (List Location)
  | .asset _ => none
  | .images places => some places

/-- The text of the module for a delivery that is made from the files of a disk. -/
def GivesModule (d : Disk) (name : ModuleName) (text : String) : Delivery → Prop
  | .asset place => ∃ contents, Embedder.content d place = .ok contents ∧
      text = Embedder.moduleText name.text contents
  | .images places => ∃ kind urls, TextureKind.ofCount? places.length = some kind ∧
      places.mapM (Image.locationDataUrl d) = .ok urls ∧
      text = TextureLibrary.moduleText name.text kind urls

end Delivery

/-- The modules with the numbers from zero on, embedded files first. -/
def ModuleName.upTo (assets textures : Nat) : List ModuleName :=
  (List.range assets).map .file ++ (List.range textures).map .texture

namespace Store

/-- A store without modules. -/
def new (base out : Path) (d : Disk) : Store :=
  ⟨.new base out, .new base out, d⟩

/-- The modules of a store. -/
def modules (s : Store) : List ModuleName :=
  ModuleName.upTo s.embedder.size s.textures.size

/-- The modules of a store go to a directory. -/
structure At (out : Path) (s : Store) : Prop where
  embedder : s.embedder.out = out
  textures : s.textures.out = out

/-- A request that succeeds, with the module that it gets. -/
inductive Delivers (s : Store) : Delivery → ModuleName → Store → Prop
  | asset {file : String} {name : ModuleName} {e : Embedder} {d : Disk} {place : Location}
    (hplace : resolveAsset s.disk s.embedder.base file = .ok place)
    (hembed : s.embedder.embed s.disk file = .ok (name, e, d)) :
    Delivers s (.asset place) name ⟨e, s.textures, d⟩
  | images {files : List String} {handle : TextureHandle} {t : TextureLibrary} {d : Disk}
    {places : List Location}
    (hplaces : TextureLibrary.places s.disk s.textures.base files = .ok places)
    (hadd : s.textures.add s.disk files = .ok (handle, t, d)) :
    Delivers s (.images places) handle.name ⟨s.embedder, t, d⟩

/-- Requests that succeed one after the other. -/
inductive DeliversAll (start : Store) : List Delivery → Store → Prop
  | nil : DeliversAll start [] start
  | snoc {ds : List Delivery} {s t : Store} {x : Delivery} {name : ModuleName}
    (h : DeliversAll start ds s) (hx : s.Delivers x name t) : DeliversAll start (ds ++ [x]) t

/-- A request makes a module: it has the next number, and its text is written to its file. -/
structure Makes (out : Path) (s : Store) (x : Delivery) (name : ModuleName) (t : Store) :
    Prop where
  fresh : name ∉ s.modules
  modules (other : ModuleName) : other ∈ t.modules ↔ other ∈ s.modules ∨ other = name
  written : ∃ text, x.GivesModule s.disk name text ∧
    s.disk.write (name.path out) text.toUTF8 = .ok t.disk

variable {out : Path} {s t : Store} {x : Delivery} {name : ModuleName}

theorem At.delivers (h : s.At out) (hx : s.Delivers x name t) : t.At out := by
  cases hx with
  | asset hplace hembed =>
    obtain ⟨-, -, ⟨-, rfl, -⟩ | ⟨-, -, -, -, -, rfl⟩⟩ := Embedder.embed_cases hembed <;>
      exact ⟨h.embedder, h.textures⟩
  | images hplaces hadd =>
    obtain ⟨-, -, -, ⟨-, -, rfl, -⟩ | ⟨-, -, -, -, -, -, rfl⟩⟩ := TextureLibrary.add_cases hadd <;>
      exact ⟨h.embedder, h.textures⟩

/-- A request that succeeds either finds its module, and then nothing changes, or makes it. -/
theorem Delivers.found_or_made (hout : s.At out) (h : s.Delivers x name t) :
    t = s ∨ Makes out s x name t := by
  cases h with
  | @asset file _ e d place hplace hembed =>
    obtain ⟨l, hl, hcases⟩ := Embedder.embed_cases hembed
    obtain rfl : place = l := Except.ok.inj (hplace.symm.trans hl)
    rcases hcases with ⟨-, rfl, rfl⟩ | ⟨-, rfl, contents, hcontents, hwrite, rfl⟩
    · exact .inl rfl
    · rw [hout.embedder] at hwrite
      refine .inr ⟨?_, fun other => ?_, _, ⟨contents, hcontents, rfl⟩, hwrite⟩
      · simp [modules, ModuleName.upTo]
      · simp [modules, ModuleName.upTo, Embedder.size, List.range_succ, or_comm, or_left_comm]
  | @images files handle t d places hplaces hadd =>
    obtain ⟨name, kind, created⟩ := handle
    obtain ⟨hkind, found, hfound, hcases⟩ := TextureLibrary.add_cases hadd
    obtain rfl : places = found := Except.ok.inj (hplaces.symm.trans hfound)
    rcases hcases with ⟨-, -, rfl, rfl⟩ | ⟨-, -, rfl, urls, hurls, hwrite, rfl⟩
    · exact .inl rfl
    · rw [hout.textures] at hwrite
      rw [← TextureLibrary.length_of_places hplaces] at hkind
      refine .inr ⟨?_, fun other => ?_, _, ⟨kind, urls, hkind, hurls, rfl⟩, hwrite⟩
      · simp [modules, ModuleName.upTo]
      · simp [modules, ModuleName.upTo, TextureLibrary.size, List.range_succ, or_assoc]

end Store

/-! ## All requests together -/

/-- The files among deliveries. -/
def assetsOf (ds : List Delivery) : List Location :=
  ds.filterMap Delivery.asset?

/-- The sets of images among deliveries. -/
def imagesOf (ds : List Delivery) : List (List Location) :=
  ds.filterMap Delivery.images?

section

variable (ds : List Delivery)

@[simp]
theorem assetsOf_snoc_asset (place : Location) :
    assetsOf (ds ++ [.asset place]) = assetsOf ds ++ [place] := by
  simp [assetsOf, Delivery.asset?]

@[simp]
theorem assetsOf_snoc_images (places : List Location) :
    assetsOf (ds ++ [.images places]) = assetsOf ds := by
  simp [assetsOf, Delivery.asset?]

@[simp]
theorem imagesOf_snoc_asset (place : Location) :
    imagesOf (ds ++ [.asset place]) = imagesOf ds := by
  simp [imagesOf, Delivery.images?]

@[simp]
theorem imagesOf_snoc_images (places : List Location) :
    imagesOf (ds ++ [.images places]) = imagesOf ds ++ [places] := by
  simp [imagesOf, Delivery.images?]

end

/-- The number of distinct files among deliveries. -/
def assetCount (ds : List Delivery) : Nat :=
  (assetsOf ds).eraseDups.length

/-- The number of distinct keys of the sets of images among deliveries. Sets with one key share a
module. -/
def textureCount (ds : List Delivery) : Nat :=
  ((imagesOf ds).map TextureLibrary.key).eraseDups.length

/-- A module of a store, and the request by which it was made: its file holds the text that it got
then. -/
def Store.Holds (start : Store) (out : Path) (ds : List Delivery) (d : Disk) (name : ModuleName) :
    Prop :=
  ∃ before x after u v text, ds = before ++ x :: after ∧ start.DeliversAll before u ∧
    u.Delivers x name v ∧ name ∉ u.modules ∧ x.GivesModule u.disk name text ∧
    d.read (name.path out) = .ok text.toUTF8

/-- A module keeps its file as long as the file can be read as before. -/
theorem Store.Holds.mono {start : Store} {out : Path} {ds : List Delivery} {d d' : Disk}
    {name : ModuleName} (h : start.Holds out ds d name)
    (hread : ∀ c, d.read (name.path out) = .ok c → d'.read (name.path out) = .ok c) :
    start.Holds out ds d' name := by
  obtain ⟨before, x, after, u, v, text, hds, hbefore, hx, hnew, hgives, hold⟩ := h
  exact ⟨before, x, after, u, v, text, hds, hbefore, hx, hnew, hgives, hread _ hold⟩

/-- What a store has become by requests that succeeded. -/
structure Stocked (start : Store) (out : Path) (ds : List Delivery) (s : Store) : Prop where
  out_eq : s.At out
  assets : s.embedder.cached = numbering .file (assetsOf ds)
  textures : s.textures.cached = numbering .texture ((imagesOf ds).map TextureLibrary.key)
  grows : start.disk.Grows s.disk
  /-- Only the files of modules have changed. -/
  frame (l : Location) : s.disk.node? l ≠ start.disk.node? l →
    ∃ name ∈ s.modules, s.disk.reach (name.path out) = .ok l
  holds : ∀ name ∈ s.modules, start.Holds out ds s.disk name

namespace Stocked

variable {start s t : Store} {out : Path} {ds : List Delivery} {x : Delivery} {name : ModuleName}

theorem new (base out : Path) (d : Disk) : Stocked (.new base out d) out [] (.new base out d) where
  out_eq := ⟨rfl, rfl⟩
  assets := rfl
  textures := rfl
  grows := .refl _
  frame _ h := absurd rfl h
  holds _ h := absurd h (by simp [Store.modules, ModuleName.upTo, Store.new, Embedder.size,
    Embedder.new, TextureLibrary.size, TextureLibrary.new])

/-- A request that was made earlier. -/
theorem holds_snoc {d : Disk} (h : start.Holds out ds d name) (x : Delivery) :
    start.Holds out (ds ++ [x]) d name := by
  obtain ⟨before, y, after, u, v, text, rfl, hrest⟩ := h
  exact ⟨before, y, after ++ [x], u, v, text, by simp, hrest⟩

/-- The numbers of the modules after one more request. -/
theorem cached_snoc (h : Stocked start out ds s) (hx : s.Delivers x name t) :
    t.embedder.cached = numbering .file (assetsOf (ds ++ [x])) ∧
      t.textures.cached =
        numbering .texture ((imagesOf (ds ++ [x])).map TextureLibrary.key) := by
  cases hx with
  | @asset file _ e d place hplace hembed =>
    rw [assetsOf_snoc_asset, imagesOf_snoc_asset]
    refine ⟨?_, h.textures⟩
    obtain ⟨l, hl, hcases⟩ := Embedder.embed_cases hembed
    obtain rfl : place = l := Except.ok.inj (hplace.symm.trans hl)
    rw [Embedder.find?, h.assets, lookup_numbering] at hcases
    rcases hcases with ⟨hfound, rfl, -⟩ | ⟨hfresh, rfl, -, -, -, rfl⟩
    · have hmem : place ∈ assetsOf ds := by
        by_contra hmem
        simp [hmem] at hfound
      rw [numbering_snoc_of_mem hmem, h.assets]
    · have hmem : place ∉ assetsOf ds := fun hmem => by simp [hmem] at hfresh
      rw [numbering_snoc hmem, ← h.assets]
      rfl
  | @images files handle t d places hplaces hadd =>
    obtain ⟨name, kind, created⟩ := handle
    rw [assetsOf_snoc_images, imagesOf_snoc_images, List.map_append, List.map_singleton]
    refine ⟨h.assets, ?_⟩
    obtain ⟨-, found, hfound, hcases⟩ := TextureLibrary.add_cases hadd
    obtain rfl : places = found := Except.ok.inj (hplaces.symm.trans hfound)
    rw [h.textures, lookup_numbering] at hcases
    rcases hcases with ⟨hfound, -, rfl, -⟩ | ⟨hfresh, -, rfl, -, -, -, rfl⟩
    · have hmem : TextureLibrary.key places ∈ (imagesOf ds).map TextureLibrary.key := by
        by_contra hmem
        rw [if_neg hmem] at hfound
        cases hfound
      rw [numbering_snoc_of_mem hmem, h.textures]
    · have hmem : TextureLibrary.key places ∉ (imagesOf ds).map TextureLibrary.key := by
        intro hmem
        rw [if_pos hmem] at hfresh
        cases hfresh
      rw [numbering_snoc hmem, ← h.textures]
      rfl

/-- One more request. -/
theorem snoc (h : Stocked start out ds s) (hall : start.DeliversAll ds s)
    (hx : s.Delivers x name t) : Stocked start out (ds ++ [x]) t := by
  obtain ⟨hassets, htextures⟩ := h.cached_snoc hx
  rcases hx.found_or_made h.out_eq with rfl | hmakes
  · exact ⟨h.out_eq, hassets, htextures, h.grows, h.frame,
      fun other hother => holds_snoc (h.holds other hother) x⟩
  obtain ⟨text, hgives, hwrite⟩ := hmakes.written
  have hgrows := Disk.write_grows hwrite
  refine ⟨h.out_eq.delivers hx, hassets, htextures, h.grows.trans hgrows, ?_, ?_⟩
  · -- the place of the new module, or one that had changed before
    intro l hl
    obtain ⟨place, -, hset, -, hreach⟩ := Disk.write_spec hwrite
    by_cases hplace : l = place
    · exact ⟨name, (hmakes.modules name).2 (.inr rfl), hplace ▸ hreach⟩
    · rw [hset, Disk.node?_set_of_ne _ _ hplace] at hl
      obtain ⟨other, hother, hreach⟩ := h.frame l hl
      exact ⟨other, (hmakes.modules other).2 (.inl hother), hgrows.reach hreach⟩
  · intro other hother
    rcases (hmakes.modules other).1 hother with hold | rfl
    · have hne : other ≠ name := fun e => hmakes.fresh (e ▸ hold)
      exact (holds_snoc (h.holds other hold) x).mono fun c hread =>
        ModuleName.read_path_of_write hne hread hwrite
    · exact ⟨ds, x, [], s, t, text, rfl, hall, hx, hmakes.fresh, hgives,
        Disk.read_of_write hwrite⟩

/-- Whatever is asked for, the store is stocked. -/
theorem of_deliversAll {base : Path} {d : Disk}
    (h : (Store.new base out d).DeliversAll ds s) : Stocked (.new base out d) out ds s := by
  induction h with
  | nil => exact .new base out d
  | snoc hall hx ih => exact ih.snoc hall hx

theorem modules_eq (h : Stocked start out ds s) :
    s.modules = ModuleName.upTo (assetCount ds) (textureCount ds) := by
  have length {κ : Type} [BEq κ] (make : Nat → ModuleName) (keys : List κ) :
      (numbering make keys).length = keys.eraseDups.length := by
    simp [numbering]
  rw [Store.modules, Embedder.size, TextureLibrary.size, h.assets, h.textures, length, length]
  rfl

end Stocked

/-! ## Distinct sets of images -/

section

variable {α κ : Type} [BEq α] [LawfulBEq α] [BEq κ] [LawfulBEq κ] (f : α → κ)

theorem length_eraseDups_map_le (as : List α) :
    (as.map f).eraseDups.length ≤ as.eraseDups.length := by
  induction as using List.reverseRecOn with
  | nil => exact Nat.le_refl _
  | append_singleton as a ih =>
    rw [List.map_append, List.map_singleton]
    by_cases ha : a ∈ as
    · rw [eraseDups_snoc_of_mem ha, eraseDups_snoc_of_mem (List.mem_map_of_mem ha)]
      exact ih
    · rw [eraseDups_snoc ha, List.length_append, List.length_singleton]
      by_cases hf : f a ∈ as.map f
      · rw [eraseDups_snoc_of_mem hf]
        exact Nat.le_succ_of_le ih
      · rw [eraseDups_snoc hf, List.length_append, List.length_singleton]
        exact Nat.succ_le_succ ih

theorem length_eraseDups_map {as : List α}
    (hf : ∀ a ∈ as, ∀ b ∈ as, f a = f b → a = b) :
    (as.map f).eraseDups.length = as.eraseDups.length := by
  induction as using List.reverseRecOn with
  | nil => rfl
  | append_singleton as a ih =>
    have ih := ih fun b hb c hc => hf b (List.mem_append_left _ hb) c (List.mem_append_left _ hc)
    rw [List.map_append, List.map_singleton]
    by_cases ha : a ∈ as
    · rw [eraseDups_snoc_of_mem ha, eraseDups_snoc_of_mem (List.mem_map_of_mem ha), ih]
    · have hnew : f a ∉ as.map f := by
        intro hmem
        obtain ⟨b, hb, hfb⟩ := List.mem_map.1 hmem
        have := hf b (List.mem_append_left _ hb) a (List.mem_append_right _ List.mem_cons_self) hfb
        exact ha (this ▸ hb)
      rw [eraseDups_snoc ha, eraseDups_snoc hnew, List.length_append, List.length_append, ih]
      rfl

end

/-- Sets of images with one key count as one. -/
theorem textureCount_le (ds : List Delivery) :
    textureCount ds ≤ (imagesOf ds).eraseDups.length :=
  length_eraseDups_map_le TextureLibrary.key (imagesOf ds)

theorem Store.DeliversAll.proper {base out : Path} {d : Disk} {ds : List Delivery} {s : Store}
    (h : (Store.new base out d).DeliversAll ds s) (hcwd : d.cwd.Proper) :
    ∀ places ∈ imagesOf ds, ∀ l ∈ places, l.Proper := by
  induction h with
  | nil => exact nofun
  | @snoc ds s t x name hall hx ih =>
    have hgrows := (Stocked.of_deliversAll hall).grows
    have hcwd' : s.disk.cwd.Proper := by
      rw [hgrows.cwd]
      exact hcwd
    intro places hplaces
    cases hx with
    | asset =>
      rw [imagesOf_snoc_asset] at hplaces
      exact ih places hplaces
    | @images files handle t d found hfound hadd =>
      rw [imagesOf_snoc_images, List.mem_append] at hplaces
      rcases hplaces with hplaces | hplaces
      · exact ih places hplaces
      · obtain rfl := List.mem_singleton.1 hplaces
        exact TextureLibrary.proper_of_places hcwd' hfound

/-- Where no name holds a line feed, each set of images counts. -/
theorem textureCount_eq {base out : Path} {d : Disk} {ds : List Delivery} {s : Store}
    (h : (Store.new base out d).DeliversAll ds s) (hcwd : d.cwd.Proper)
    (hline : ∀ places ∈ imagesOf ds, ∀ l ∈ places, l.OneLine) :
    textureCount ds = (imagesOf ds).eraseDups.length := by
  have hproper := h.proper hcwd
  refine length_eraseDups_map TextureLibrary.key fun found hfound found' hfound' hkey => ?_
  exact (TextureLibrary.key_inj (hproper found hfound) (hproper found' hfound')
    (hline found hfound) (hline found' hfound')).1 hkey

/-! ## Emissions -/

namespace Emit

/-- The store of a session has come about by requests that succeeded. -/
def Delivered (start : Store) (s : Session) : Prop :=
  ∃ ds, start.DeliversAll ds s.store

variable {start : Store}

theorem keeps_delivered_embed (file : String) : Keeps (Delivered start) (embed file) := by
  rintro s ⟨ds, hds⟩
  simp only [after, run_embed]
  cases he : s.embedder.embed s.disk file with
  | error e => exact ⟨ds, hds⟩
  | ok answer =>
    obtain ⟨l, hl, -⟩ := Embedder.embed_cases he
    exact ⟨_, hds.snoc (.asset hl he)⟩

theorem keeps_delivered_texture (files : List String) :
    Keeps (Delivered start) (texture files) := by
  rintro s ⟨ds, hds⟩
  simp only [after, run_texture]
  cases ha : s.textures.add s.disk files with
  | error e => exact ⟨ds, hds⟩
  | ok answer =>
    obtain ⟨-, found, hfound, -⟩ := TextureLibrary.add_cases ha
    exact ⟨_, hds.snoc (.images hfound ha)⟩

theorem keeps_delivered_shaderSource (glslify : Bool) (text : String) :
    Keeps (Delivered start) (shaderSource glslify text) := by
  have note (name : ModuleName) : Keeps (Delivered start) (noteGlslify name) := by
    intro s h
    simp only [after, noteGlslify, EStateM.run_modify]
    split <;> exact h
  have done {α : Type} (a : α) : Keeps (Delivered start) (pure a : Emit α) := fun _ h => h
  unfold shaderSource
  split
  · exact done _
  · refine .bind (keeps_delivered_embed text) fun name => ?_
    dsimp only
    split
    · exact .bind (note name) fun _ => done _
    · exact done _

/-- No emission does anything to the store but ask for modules. -/
theorem simulation_delivered : Simulation (Same (Delivered start)) :=
  simulation_same (fun _ _ h => h) (fun _ _ h => h) (fun _ h => h) (fun _ h => h) (fun _ _ h => h)
    keeps_delivered_embed keeps_delivered_texture keeps_delivered_shaderSource

/-- Whether an assembly succeeds or fails, it has done nothing to the store but ask for modules. -/
theorem keeps_delivered_assemble (scene : Scene) : Keeps (Delivered start) (assemble scene) :=
  keeps_assemble simulation_delivered (fun _ h => h) (fun _ _ h => h) scene

theorem perform_delivered {s : Session} (h : Delivered start s) (steps : List Step) :
    Delivered start (perform s steps) :=
  perform_keeps simulation_delivered (fun _ h => h) (fun _ _ h => h) h steps

end Emit

end SceneScript
