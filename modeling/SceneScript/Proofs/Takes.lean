import SceneScript.Proofs.Serving

/-!
# Orders answered from one disk

A store takes orders for embedded files and for textures in any order, and any of them may fail. The
two kinds share nothing but the disk, and they write to different files. So an order that does not
come by the file of a module is answered as from the disk that the store found (`Shelf.take`,
`Store.Adds.deliver`). Answered from one disk, the orders of one kind do not see those of the other
(`Shelf.Part.briefs_filter`).
-/

namespace SceneScript

/-! ## Where modules are written -/

namespace Disk

/-- Whether a path comes by the place that another one is written to. -/
def comesBy (d : Disk) (p q : Path) : Bool :=
  match d.target q with
  | .ok (some (l, _)) => l ∈ d.trail p
  | _ => false

variable {d e : Disk} {p q : Path} {l : Location}

theorem not_mem_trail_of_comesBy (h : d.comesBy p q = false) {slash : Bool}
    (hl : d.target q = .ok (some (l, slash))) : l ∉ d.trail p := by
  simpa [comesBy, hl] using h

/-- Whether a file can be written depends on the place that it goes to. -/
theorem write_congr {c : ByteArray} (htarget : e.target p = d.target p)
    (hnode : ∀ l, d.target p = .ok (some (l, false)) → e.node? l = d.node? l) {α : Type} (a : α) :
    (e.write p c).map (fun _ => a) = (d.write p c).map fun _ => a := by
  simp only [write, htarget]
  cases ht : d.target p with
  | error fault => rfl
  | ok place =>
    rcases place with _ | ⟨l, _ | _⟩
    · rfl
    · simp only [bind, Except.bind, hnode l ht]
      cases d.node? l with
      | none => rfl
      | some n => cases n <;> rfl
    · rfl

/-- The place of a name in a directory stays. -/
theorem Grows.target (h : d.Grows e) {before : List String} {last : String} {parent : Location}
    (hends : EndsWith p before last) (hwalk : d.walk (d.origin p) before = .ok parent)
    (hdirectory : d.node? parent = some .directory) : e.target p = d.target p := by
  simp only [Disk.target, hends.cutLast, h.origin, h.walk hwalk, hwalk, h.directory hdirectory,
    hdirectory, bind, Except.bind]

end Disk

theorem Path.isAbsolute_join (p : Path) {name : String} (h : '/' ∉ name.toList) :
    (p.join ⟨name⟩).isAbsolute = p.isAbsolute := by
  have relative : name.toList.head? ≠ some '/' := fun e => h (List.mem_of_head? e)
  simp only [join, isAbsolute, relative, decide_false, Bool.false_eq_true, ↓reduceIte]
  cases hp : p.text.toList with
  | nil =>
    obtain rfl : p = ⟨""⟩ := congrArg Path.mk (String.toList_inj.1 hp)
    simpa using relative
  | cons c cs => split <;> simp [hp]

namespace ModuleName

variable {d e : Disk} {out : Path} {name other : ModuleName} {l : Location}

/-- The place of a module is its file name in some directory. -/
theorem leadsInto_of_target (h : d.target (name.path out) = .ok (some (l, false))) :
    ∃ parent, d.LeadsInto (name.path out) parent name.fileName ∧
      l = parent.child name.fileName := by
  obtain ⟨parent, last, hleads, rfl⟩ := Disk.leadsInto_of_target h
  obtain ⟨before, hends, -⟩ := hleads.walk
  obtain ⟨before', hends'⟩ := name.endsWith_path out
  obtain ⟨-, hlast⟩ := List.append_inj' (hends.segments.symm.trans hends'.segments) rfl
  obtain rfl := (List.cons.inj hlast).1
  exact ⟨parent, hleads, rfl⟩

theorem eq_of_target (h : d.target (name.path out) = .ok (some (l, false)))
    (h' : d.target (other.path out) = .ok (some (l, false))) : name = other := by
  obtain ⟨parent, -, hl⟩ := leadsInto_of_target h
  obtain ⟨parent', -, hl'⟩ := leadsInto_of_target h'
  exact fileName_injective (Disk.child_inj (hl.symm.trans hl')).2

/-- If one module has a place, the places of all modules stay. -/
theorem target_path_of_grows (hgrows : d.Grows e)
    (h : d.target (name.path out) = .ok (some (l, false))) (other : ModuleName) :
    e.target (other.path out) = d.target (other.path out) := by
  obtain ⟨before, hends⟩ := exists_endsWith_path out
  obtain ⟨parent, hleads, -⟩ := leadsInto_of_target h
  obtain ⟨before', hends', hwalk⟩ := hleads.walk
  obtain ⟨rfl, -⟩ := List.append_inj' (hends'.segments.symm.trans (hends name).segments) rfl
  have horigin (name : ModuleName) : d.origin (name.path out) = d.origin out := by
    have habsolute : (name.path out).isAbsolute = out.isAbsolute :=
      Path.isAbsolute_join out name.slash_not_mem_fileName
    simp only [Disk.origin, habsolute]
  rw [horigin] at hwalk
  exact hgrows.target (hends other) ((horigin other).symm ▸ hwalk) hleads.directory

end ModuleName

/-! ## Orders answered from one disk -/

/-- Whether an order is for an embedded file. -/
def Order.isAsset : Order → Bool
  | .asset _ => true
  | .texture _ => false

/-- Whether an order is for a texture. -/
def Order.isTexture (o : Order) : Bool :=
  !o.isAsset

theorem Order.subset_of_interleaved {os os' : List Order}
    (hassets : os'.filter isAsset = os.filter isAsset)
    (htextures : os'.filter isTexture = os.filter isTexture) : os' ⊆ os := by
  intro o ho
  cases hkind : o.isAsset with
  | true => exact (List.mem_filter.1 (hassets ▸ List.mem_filter.2 ⟨ho, hkind⟩)).1
  | false =>
    have hkind : o.isTexture = true := by simp [isTexture, hkind]
    exact (List.mem_filter.1 (htextures ▸ List.mem_filter.2 ⟨ho, hkind⟩)).1

namespace Shelf

variable (base out : Path) (d : Disk)

/-- The pick for an order, if the file of a new module could be written. -/
def take (c : Shelf) (o : Order) : Except Error Pick := do
  let k ← c.pick base d o
  match k.made with
  | none => return k
  | some text => (writeGenerated d (k.name.path out) text).map fun _ => k

/-- The shelf after an order. One that is refused changes nothing. -/
def next (c : Shelf) (o : Order) : Shelf :=
  (c.take base out d o).toOption.elim c Pick.shelf

/-- The shelf after some orders. -/
def final (c : Shelf) (os : List Order) : Shelf :=
  os.foldl (next base out d) c

/-- The picks for orders one after the other. -/
def takes : Shelf → List Order → List (Order × Except Error Pick)
  | _, [] => []
  | c, o :: os => (o, c.take base out d o) :: takes (c.next base out d o) os

variable {base out d} {c : Shelf} {o : Order} {k : Pick}

theorem take_of_error {err : Error} (h : c.pick base d o = .error err) :
    c.take base out d o = .error err := by
  rw [take, h]
  rfl

theorem take_of_found (h : c.pick base d o = .ok k) (hmade : k.made = none) :
    c.take base out d o = .ok k := by
  rw [take, h]
  simp only [bind, Except.bind, hmade]
  rfl

theorem take_of_made {text : String} (h : c.pick base d o = .ok k) (hmade : k.made = some text) :
    c.take base out d o = (writeGenerated d (k.name.path out) text).map fun _ => k := by
  rw [take, h]
  simp only [bind, Except.bind, hmade]

theorem pick_of_take (h : c.take base out d o = .ok k) : c.pick base d o = .ok k := by
  cases hpick : c.pick base d o with
  | error err =>
    rw [take_of_error hpick] at h
    cases h
  | ok k' =>
    cases hmade : k'.made with
    | none => rw [← h, take_of_found hpick hmade]
    | some text =>
      rw [take_of_made hpick hmade] at h
      cases hwrite : writeGenerated d (k'.name.path out) text with
      | error err =>
        rw [hwrite] at h
        cases h
      | ok e =>
        rw [hwrite] at h
        exact h

theorem next_of_error {err : Error} (h : c.take base out d o = .error err) :
    c.next base out d o = c := by
  rw [next, h]
  rfl

theorem next_of_ok (h : c.take base out d o = .ok k) : c.next base out d o = k.shelf := by
  rw [next, h]
  rfl

/-- No module leaves the shelf. -/
theorem modules_next (o : Order) : c.modules ⊆ (c.next base out d o).modules := by
  cases htake : c.take base out d o with
  | error err =>
    rw [next_of_error htake]
    exact List.Subset.refl _
  | ok k =>
    rw [next_of_ok htake]
    rcases pick_cases (pick_of_take htake) with ⟨-, hshelf⟩ | ⟨-, -, -, hmodules⟩
    · exact (congrArg modules hshelf).symm ▸ List.Subset.refl _
    · exact fun name hname => (hmodules name).2 (.inl hname)

theorem modules_mono {c' : Shelf} (hfiles : c.files.length ≤ c'.files.length)
    (htextures : c.textures.length ≤ c'.textures.length) : c.modules ⊆ c'.modules := by
  intro name hname
  simp only [modules, ModuleName.upTo, List.mem_append, List.mem_map, List.mem_range] at hname ⊢
  rcases hname with ⟨k, hk, rfl⟩ | ⟨k, hk, rfl⟩
  · exact .inl ⟨k, by omega, rfl⟩
  · exact .inr ⟨k, by omega, rfl⟩

theorem modules_final (os : List Order) : c.modules ⊆ (c.final base out d os).modules := by
  induction os generalizing c with
  | nil => exact List.Subset.refl _
  | cons o os ih => exact fun name hname => ih (modules_next o hname)

end Shelf

/-! ## Parts of a shelf -/

attribute [ext] Shelf

namespace Shelf

variable (base out : Path) (d : Disk)

/-- The picks for orders one after the other, without the shelf. -/
def briefs (c : Shelf) (os : List Order) :
    List (Order × Except Error (ModuleName × Option String)) :=
  (c.takes base out d os).map fun a => (a.1, a.2.map fun k => (k.name, k.made))

/-- Some orders are about one part of the shelf, and the others leave this part alone. -/
structure Part (β : Type) where
  view : Shelf → β
  mine : Order → Bool
  same {c c' : Shelf} {o : Order} (ho : mine o = true) (hc : view c' = view c) :
    (c'.pick base d o).map (fun k => (k.name, k.made, view k.shelf)) =
      (c.pick base d o).map fun k => (k.name, k.made, view k.shelf)
  other {c : Shelf} {o : Order} {k : Pick} (ho : mine o = false)
    (h : c.pick base d o = .ok k) : view k.shelf = view c

variable {base out d} {c c' : Shelf} {o : Order} {name : ModuleName} {text : String}

theorem mem_briefs {made : Option String} {os : List Order}
    (h : (o, .ok (name, made)) ∈ c.briefs base out d os) :
    ∃ k, (o, .ok k) ∈ c.takes base out d os ∧ k.name = name ∧ k.made = made := by
  obtain ⟨⟨o', result⟩, hmem, heq⟩ := List.mem_map.1 h
  cases result with
  | error err => cases heq
  | ok k =>
    cases heq
    exact ⟨k, hmem, rfl, rfl⟩

theorem briefs_cons (os : List Order) :
    c.briefs base out d (o :: os) =
      (o, (c.take base out d o).map fun k => (k.name, k.made)) ::
        (c.next base out d o).briefs base out d os := rfl

namespace Part

variable {β : Type} (P : Part base d β)

variable (out) in
/-- Orders of the part see no difference between shelves that agree on it. -/
theorem take_same (ho : P.mine o = true) (hc : P.view c' = P.view c) :
    (∃ err, c'.take base out d o = .error err ∧ c.take base out d o = .error err) ∨
      ∃ k k', c'.take base out d o = .ok k' ∧ c.take base out d o = .ok k ∧
        k'.name = k.name ∧ k'.made = k.made ∧ P.view k'.shelf = P.view k.shelf := by
  have hsame := P.same ho hc
  cases h' : c'.pick base d o <;> cases h : c.pick base d o <;> rw [h, h'] at hsame
  case error.error err' err =>
    cases hsame
    exact .inl ⟨_, take_of_error h', take_of_error h⟩
  case error.ok => cases hsame
  case ok.error => cases hsame
  case ok.ok k' k =>
    simp only [Except.map, Except.ok.injEq, Prod.mk.injEq] at hsame
    obtain ⟨hname, hmade, hview⟩ := hsame
    cases htext : k.made with
    | none =>
      exact .inr ⟨k, k', take_of_found h' (hmade.trans htext), take_of_found h htext, hname, hmade,
        hview⟩
    | some text =>
      rw [take_of_made h' (hmade.trans htext), take_of_made h htext, hname]
      cases writeGenerated d (k.name.path out) text with
      | error err => exact .inl ⟨err, rfl, rfl⟩
      | ok e => exact .inr ⟨k, k', rfl, rfl, hname, hmade, hview⟩

theorem brief_same (ho : P.mine o = true) (hc : P.view c' = P.view c) :
    (c'.take base out d o).map (fun k => (k.name, k.made)) =
      (c.take base out d o).map fun k => (k.name, k.made) := by
  obtain ⟨err, h', h⟩ | ⟨k, k', h', h, hname, hmade, -⟩ := P.take_same out ho hc
  · rw [h, h']
  · simp only [h, h', Except.map, hname, hmade]

theorem view_next_same (ho : P.mine o = true) (hc : P.view c' = P.view c) :
    P.view (c'.next base out d o) = P.view (c.next base out d o) := by
  obtain ⟨err, h', h⟩ | ⟨k, k', h', h, -, -, hview⟩ := P.take_same out ho hc
  · rw [next_of_error h, next_of_error h', hc]
  · rw [next_of_ok h, next_of_ok h', hview]

theorem view_next_other (ho : P.mine o = false) : P.view (c.next base out d o) = P.view c := by
  cases h : c.take base out d o with
  | error err => rw [next_of_error h]
  | ok k => rw [next_of_ok h, P.other ho (pick_of_take h)]

/-- The orders of one part get what they get without the others. -/
theorem briefs_filter (hc : P.view c' = P.view c) (os : List Order) :
    (c.briefs base out d os).filter (fun a => P.mine a.1) =
      c'.briefs base out d (os.filter P.mine) ∧
      P.view (c'.final base out d (os.filter P.mine)) = P.view (c.final base out d os) := by
  induction os generalizing c c' with
  | nil => exact ⟨rfl, hc⟩
  | cons o os ih =>
    cases ho : P.mine o with
    | false =>
      obtain ⟨hbriefs, hfinal⟩ := ih (hc.trans (P.view_next_other (c := c) ho).symm)
      rw [briefs_cons, List.filter_cons_of_neg (by simp [ho]),
        List.filter_cons_of_neg (by simp [ho])]
      exact ⟨hbriefs, hfinal⟩
    | true =>
      obtain ⟨hbriefs, hfinal⟩ := ih (P.view_next_same ho hc)
      rw [briefs_cons, List.filter_cons_of_pos (by simp [ho]), List.filter_cons_of_pos ho,
        briefs_cons, P.brief_same ho hc, hbriefs]
      exact ⟨rfl, hfinal⟩

end Part

variable (base d)

/-- The embedded files. -/
def filesPart : Part base d (List (Location × ModuleName)) where
  view := files
  mine := Order.isAsset
  same {c c' o} ho hc := by
    cases o with
    | texture => cases ho
    | asset file =>
      simp only [pick, pickFile, hc, bind, Except.bind]
      cases resolveAsset d base file with
      | error err => rfl
      | ok l =>
        dsimp only
        cases c.files.lookup l with
        | some name => exact congrArg (fun files => Except.ok (name, none, files)) hc
        | none => cases Embedder.content d l <;> rfl
  other {c o k} ho h := by
    cases o with
    | asset => cases ho
    | texture names =>
      obtain ⟨kind, found, -, -, ⟨-, hk⟩ | ⟨-, urls, -, hk⟩⟩ := pickTexture_eq_ok h <;> rw [hk]

/-- The textures. -/
def texturesPart : Part base d (List (String × ModuleName)) where
  view := textures
  mine := Order.isTexture
  same {c c' o} ho hc := by
    cases o with
    | asset => cases ho
    | texture names =>
      simp only [pick, pickTexture, hc, bind, Except.bind]
      cases TextureKind.ofCount? names.length with
      | none => rfl
      | some kind =>
        dsimp only
        cases TextureLibrary.places d base names with
        | error err => rfl
        | ok found =>
          dsimp only
          cases c.textures.lookup (TextureLibrary.key found) with
          | some name => exact congrArg (fun textures => Except.ok (name, none, textures)) hc
          | none => cases found.mapM (Image.locationDataUrl d) <;> rfl
  other {c o k} ho h := by
    cases o with
    | texture => cases ho
    | asset file =>
      obtain ⟨l, -, ⟨-, hk⟩ | ⟨-, text, -, hk⟩⟩ := pickFile_eq_ok h <;> rw [hk]

variable {base d} (c) (os : List Order)

theorem files_final_assets :
    (c.final base out d (os.filter Order.isAsset)).files = (c.final base out d os).files :=
  ((filesPart base d).briefs_filter rfl os).2

theorem textures_final_textures :
    (c.final base out d (os.filter Order.isTexture)).textures = (c.final base out d os).textures :=
  ((texturesPart base d).briefs_filter rfl os).2

theorem textures_final_assets :
    (c.final base out d (os.filter Order.isAsset)).textures = c.textures := by
  have hnone : (os.filter Order.isAsset).filter Order.isTexture = [] := by
    simp [List.filter_filter, Order.isTexture]
  rw [← textures_final_textures, hnone]
  rfl

theorem files_final_textures :
    (c.final base out d (os.filter Order.isTexture)).files = c.files := by
  have hnone : (os.filter Order.isTexture).filter Order.isAsset = [] := by
    simp [List.filter_filter, Order.isTexture]
  rw [← files_final_assets, hnone]
  rfl

variable {c os} {os' : List Order} (hassets : os'.filter Order.isAsset = os.filter Order.isAsset)
  (htextures : os'.filter Order.isTexture = os.filter Order.isTexture)

include hassets htextures

/-- All interleavings of the same orders leave the same shelf. -/
theorem final_eq_of_interleaved : c.final base out d os' = c.final base out d os := by
  have hfiles : (c.final base out d os').files = (c.final base out d os).files := by
    rw [← files_final_assets, hassets, files_final_assets]
  have htextures : (c.final base out d os').textures = (c.final base out d os).textures := by
    rw [← textures_final_textures, htextures, textures_final_textures]
  exact Shelf.ext hfiles htextures

/-- All interleavings of the same orders get the same picks. -/
theorem mem_briefs_iff_of_interleaved {a : Order × Except Error (ModuleName × Option String)} :
    a ∈ c.briefs base out d os' ↔ a ∈ c.briefs base out d os := by
  have hpart {β : Type} (P : Part base d β) (hmine : P.mine a.1 = true)
      (horders : os'.filter P.mine = os.filter P.mine) :
      a ∈ c.briefs base out d os' ↔ a ∈ c.briefs base out d os := by
    have hbriefs : (c.briefs base out d os').filter (fun a => P.mine a.1) =
        c.briefs base out d (os'.filter P.mine) := (P.briefs_filter rfl os').1
    rw [horders, ← (P.briefs_filter rfl os).1] at hbriefs
    have hmem := congrArg (a ∈ ·) hbriefs
    simpa [List.mem_filter, hmine] using hmem
  cases ha : a.1.isAsset with
  | true => exact hpart (filesPart base d) ha hassets
  | false =>
    have ha' : a.1.isTexture = true := by simp [Order.isTexture, ha]
    exact hpart (texturesPart base d) ha' htextures

end Shelf

namespace Store

/-- The places of the modules of a store, as they are on the disk `d`. -/
def Occupies (out : Path) (d : Disk) (s : Store) (l : Location) : Prop :=
  ∃ name ∈ s.modules, d.target (name.path out) = .ok (some (l, false))

/-- What is new on the disk of a store since it was `d` are its modules, in a directory of `d`. -/
structure Adds (base out : Path) (d : Disk) (s : Store) : Prop where
  rooted : s.Rooted base out
  edits : Disk.Edits (s.Occupies out d) d s.disk
  opened : s.disk = d ∨ ∃ (name : ModuleName) (l : Location),
    d.target (name.path out) = .ok (some (l, false))

theorem adds_new (base out : Path) (d : Disk) : (new base out d).Adds base out d :=
  ⟨rooted_new base out d, .refl _ d, .inl rfl⟩

namespace Adds

variable {base out : Path} {d : Disk} {s t : Store} {o : Order} {name : ModuleName}

/-- The place of a module is the same as on the disk that was found. -/
theorem target (h : s.Adds base out d) (name : ModuleName) :
    s.disk.target (name.path out) = d.target (name.path out) := by
  -- before the first module the disk is still the same, and later the directory is known
  rcases h.opened with hdisk | ⟨other, l, hl⟩
  · rw [hdisk]
  · exact ModuleName.target_path_of_grows h.edits.grows hl name

/-- A new module can be written just if it could have been written first. -/
theorem writeGenerated_eq (h : s.Adds base out d) (hname : name ∉ s.modules) (text : String)
    {α : Type} (a : α) : (writeGenerated s.disk (name.path out) text).map (fun _ => a) =
      (writeGenerated d (name.path out) text).map fun _ => a := by
  have hwrite := Disk.write_congr (c := text.toUTF8) (h.target name)
    (fun l hl => h.edits.node?_eq fun ⟨other, hother, hl'⟩ =>
      hname (ModuleName.eq_of_target hl hl' ▸ hother)) a
  unfold writeGenerated
  cases hs : s.disk.write (name.path out) text.toUTF8 <;>
    cases hd : d.write (name.path out) text.toUTF8 <;> simp_all [Except.map]

/-- Where an order does not come by a module, its pick is that from the disk that was found. -/
theorem pick_eq (h : s.Adds base out d)
    (hclear : ∀ p ∈ o.lookups base d, ∀ name ∈ s.modules, d.comesBy p (name.path out) = false) :
    s.shelf.pick base s.disk o = s.shelf.pick base d o := by
  have hsame (p : Path) (hp : p ∈ o.lookups base d) : d.SameAt s.disk p :=
    h.edits.sameAt_of_trail fun l hl ⟨name, hname, htarget⟩ =>
      Disk.not_mem_trail_of_comesBy (hclear p hp name hname) htarget hl
  refine Shelf.pick_congr (fun p hp => hsame p (List.mem_append_left _ hp)) ?_
  intro file l hfile hl hnew
  cases hfile
  exact Embedder.content_congr hl (hsame _ (by simp [Order.lookups, Order.paths])) fun q hq =>
    hsame q (List.mem_append_right _ hq)

/-- One module more. -/
theorem of_write {text : String} (h : s.Adds base out d) (ht : t.Rooted base out)
    (hwrite : s.disk.write (name.path out) text.toUTF8 = .ok t.disk)
    (hmodules : ∀ other, other ∈ t.modules ↔ other ∈ s.modules ∨ other = name) :
    t.Adds base out d := by
  obtain ⟨parent, last, hleads, -⟩ := Disk.write_eq_ok_iff.1 hwrite
  obtain ⟨before, hends, -⟩ := hleads.walk
  have htarget := (h.target name).symm.trans hleads.target
  have hedits : Disk.Edits (t.Occupies out d) d s.disk := h.edits.mono
    fun l ⟨other, hother, hl⟩ => ⟨other, (hmodules other).2 (.inl hother), hl⟩
  refine ⟨ht, hedits.write hwrite fun l hl => ⟨name, (hmodules name).2 (.inr rfl), ?_⟩,
    .inr ⟨name, _, htarget⟩⟩
  obtain ⟨parent', hleads', rfl, -⟩ := Disk.leadsInto_of_reach hends hl
  have hplace := (hleads.of_grows (Disk.write_grows hwrite)).target
  exact htarget.trans (hplace.symm.trans hleads'.target)

/-- The file of a module stands at its place. -/
theorem node?_of_read {l : Location} {c : ByteArray} (h : s.Adds base out d)
    (hl : d.target (name.path out) = .ok (some (l, false)))
    (hread : s.disk.read (name.path out) = .ok c) : s.disk.node? l = some (.file c) := by
  obtain ⟨m, hm, hnode⟩ := Disk.read_eq_ok.1 hread
  obtain ⟨before, hends⟩ := name.endsWith_path out
  obtain ⟨parent, hleads, rfl, -⟩ := Disk.leadsInto_of_reach hends hm
  have hplace := hleads.target.symm.trans ((h.target name).trans hl)
  simp only [Except.ok.injEq, Option.some.injEq, Prod.mk.injEq, and_true] at hplace
  exact hplace ▸ hnode

/-- Such an order is answered as from the disk that was found. -/
theorem deliver (h : s.Adds base out d)
    (hclear : ∀ p ∈ o.lookups base d, ∀ name ∈ s.modules, d.comesBy p (name.path out) = false) :
    (∃ err, s.shelf.take base out d o = .error err ∧ s.deliver o = .error err) ∨
      ∃ k t, s.shelf.take base out d o = .ok k ∧ s.shelf.pick base s.disk o = .ok k ∧
        s.deliver o = .ok (k.name, t) ∧ t.shelf = k.shelf ∧ t.Adds base out d := by
  have hpicks := h.pick_eq hclear
  cases hdeliver : s.deliver o with
  | error err =>
    have hgives := gives_deliver h.rooted o
    rw [hdeliver] at hgives
    refine .inl ⟨err, ?_, rfl⟩
    cases hgives with
    | refused hpick => exact Shelf.take_of_error (hpicks ▸ hpick)
    | @unwritten k text _ hpick hmade hwrite =>
      obtain ⟨-, -, hfresh, -⟩ := (Shelf.pick_cases hpick).resolve_left fun hnone => by
        rw [hmade] at hnone
        cases hnone.1
      rw [Shelf.take_of_made (hpicks ▸ hpick) hmade, ← h.writeGenerated_eq hfresh, hwrite]
      rfl
  | ok answer =>
    obtain ⟨name, t⟩ := answer
    obtain ⟨k, hpick, rfl, ht, hshelf, ⟨hmade, rfl⟩ | ⟨text, hmade, hwrite, hfresh, hmodules⟩⟩ :=
      deliver_eq_ok h.rooted hdeliver
    · exact .inr ⟨k, t, Shelf.take_of_found (hpicks ▸ hpick) hmade, hpick, rfl, hshelf, h⟩
    · refine .inr ⟨k, t, ?_, hpick, rfl, hshelf, h.of_write ht hwrite hmodules⟩
      rw [Shelf.take_of_made (hpicks ▸ hpick) hmade, ← h.writeGenerated_eq hfresh,
        writeGenerated_eq_ok.2 hwrite]
      rfl

end Adds

end Store

end SceneScript
