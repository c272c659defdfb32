import SceneScript.Proofs.Deliveries
import SceneScript.Surroundings

/-!
# Disks that read alike

A run writes to the disk that it reads from. `Disk.Edits` is a disk on which files have been written
at some places since, and `Disk.SameAt` says of one path that the change does not show there: it
leads to the same node at the same place, or is refused with the same fault.

There are two ways to know this of a path. If it leads somewhere, it is enough that no file has been
written at that place (`Edits.sameAt`). If it may be refused, no file may have been written at any
place that it comes by (`Edits.sameAt_of_trail`). Files, images and material libraries read alike
where their paths do (`resolveAsset`, `content_congr`, `places_congr`, `urls_congr`).
-/

namespace SceneScript

namespace Disk

/-! ## Written files -/

/-- The second disk is the first one with files written at some of the places in `W`. -/
structure Edits (W : Location → Prop) (d e : Disk) : Prop where
  grows : Grows d e
  changed (l : Location) : e.node? l ≠ d.node? l → W l ∧ ∃ c, e.node? l = some (.file c)

namespace Edits

variable {W W' : Location → Prop} {d e f : Disk} {l m : Location} {p : Path}

theorem refl (W : Location → Prop) (d : Disk) : Edits W d d :=
  ⟨.refl d, fun _ h => absurd rfl h⟩

theorem mono (h : Edits W d e) (hW : ∀ l, W l → W' l) : Edits W' d e :=
  ⟨h.grows, fun l hl => (h.changed l hl).imp_left (hW l)⟩

theorem trans (h : Edits W d e) (h' : Edits W e f) : Edits W d f := by
  refine ⟨h.grows.trans h'.grows, fun l hl => ?_⟩
  by_cases hlater : f.node? l = e.node? l
  · rw [hlater] at hl ⊢
    exact h.changed l hl
  · exact h'.changed l hlater

/-- Writing one more file. -/
theorem write {c : ByteArray} (h : Edits W d e) (hwrite : e.write p c = .ok f)
    (hW : ∀ l, f.reach p = .ok l → W l) : Edits W d f := by
  obtain ⟨place, -, -, -, hreach⟩ := write_spec hwrite
  obtain ⟨hnode, hother⟩ := node?_of_write hwrite hreach
  refine h.trans ⟨write_grows hwrite, fun l hl => ?_⟩
  obtain rfl : l = place := by
    by_contra hne
    exact hl (hother l hne)
  exact ⟨hW l hreach, c, hnode⟩

theorem node?_eq (h : Edits W d e) (hl : ¬ W l) : e.node? l = d.node? l := by
  by_contra hne
  exact hl (h.changed l hne).1

/-- No directory is new. -/
theorem directory_iff (h : Edits W d e) :
    e.node? l = some .directory ↔ d.node? l = some .directory := by
  refine ⟨fun he => ?_, h.grows.directory⟩
  by_contra hd
  obtain ⟨-, c, hc⟩ := h.changed l fun heq => hd (heq ▸ he)
  rw [he] at hc
  cases hc

/-- A walk that succeeds goes over directories, so it is the same where it ends at a place that was
there before. -/
theorem walk (h : Edits W d e) (hl : ∀ n, e.node? l = some n → ∃ n', d.node? l = some n')
    {segments : List String} (hwalk : e.walk m segments = .ok l) : d.walk m segments = .ok l := by
  induction segments generalizing m with
  | nil => exact hwalk
  | cons segment rest ih =>
    simp only [Disk.walk] at hwalk ⊢
    cases hm : e.node? m with
    | none => simp [hm] at hwalk
    | some n =>
      cases n with
      | file c => simp [hm] at hwalk
      | directory =>
        simp only [hm] at hwalk
        simp only [h.directory_iff.1 hm]
        split_ifs at hwalk ⊢
        · exact ih hwalk
        · exact ih hwalk
        · cases hchild : e.node? (m.child segment) with
          | none => simp [hchild] at hwalk
          | some n =>
            rw [hchild] at hwalk
            have hrest := ih hwalk
            -- what the walk goes on from is a directory, unless the walk ends there
            have hold : ∃ n', d.node? (m.child segment) = some n' := by
              cases rest with
              | nil =>
                cases hwalk
                exact hl n hchild
              | cons next more =>
                simp only [Disk.walk] at hrest
                cases hn : d.node? (m.child segment) with
                | none => simp [hn] at hrest
                | some n => exact ⟨n, rfl⟩
            obtain ⟨n', hn'⟩ := hold
            rw [hn']
            exact hrest

theorem locate (h : Edits W d e) (hl : e.locate p = .ok l)
    (hnode : ∀ n, e.node? l = some n → ∃ n', d.node? l = some n') : d.locate p = .ok l := by
  obtain ⟨u, hcheck, hwalk⟩ := except_bind_eq_ok.1 hl
  rw [h.grows.origin] at hwalk
  exact except_bind_eq_ok.2 ⟨u, hcheck, h.walk hnode hwalk⟩

end Edits

/-! ## Paths that lead to the same -/

/-- A path leads to the same node at the same place, or is refused with the same fault. -/
structure SameAt (d e : Disk) (p : Path) : Prop where
  locate : e.locate p = d.locate p
  node? {l : Location} (hl : d.locate p = .ok l) : e.node? l = d.node? l

theorem locate_of_reach {d : Disk} {p : Path} {l : Location} (h : d.reach p = .ok l) :
    d.locate p = .ok l := by
  obtain ⟨-, -, hl⟩ := except_bind_eq_ok.1 h
  exact hl

theorem readAt_congr {d e : Disk} {l : Location} (h : e.node? l = d.node? l) :
    e.readAt l = d.readAt l := by
  simp only [readAt, h]

theorem readTextAt_congr {d e : Disk} {l : Location} (h : e.node? l = d.node? l) :
    e.readTextAt l = d.readTextAt l := by
  simp only [readTextAt, readAt_congr h]

namespace SameAt

variable {d e : Disk} {p : Path}

theorem reach (h : SameAt d e p) : e.reach p = d.reach p := by
  simp only [Disk.reach, h.locate]

theorem find (h : SameAt d e p) : e.find p = d.find p := by
  simp only [Disk.find, h.reach, bind, Except.bind]
  cases hr : d.reach p with
  | error fault => rfl
  | ok l => simp only [h.node? (locate_of_reach hr)]

theorem isFile (h : SameAt d e p) : e.isFile p = d.isFile p := by
  simp only [Disk.isFile, h.find]

theorem read (h : SameAt d e p) : e.read p = d.read p := by
  simp only [Disk.read, h.reach, bind, Except.bind]
  cases hr : d.reach p with
  | error fault => rfl
  | ok l => exact readAt_congr (h.node? (locate_of_reach hr))

theorem readText (h : SameAt d e p) : e.readText p = d.readText p := by
  simp only [Disk.readText, h.reach, bind, Except.bind]
  cases hr : d.reach p with
  | error fault => rfl
  | ok l => exact readTextAt_congr (h.node? (locate_of_reach hr))

theorem resolveAsset {base : Path} {file : String} (h : SameAt d e (base.join ⟨file⟩)) :
    SceneScript.resolveAsset e base file = SceneScript.resolveAsset d base file := by
  simp only [SceneScript.resolveAsset, h.locate]

theorem fileDataUrl (h : SameAt d e p) : Image.fileDataUrl e p = Image.fileDataUrl d p := by
  simp only [Image.fileDataUrl, h.read]

theorem imagePaths (h : SameAt d e p) : Request.imagePaths e p = Request.imagePaths d p := by
  simp only [Request.imagePaths, h.locate]
  cases hl : d.locate p with
  | error fault => rfl
  | ok l => simp only [readTextAt_congr (h.node? hl)]

end SameAt

theorem Edits.sameAt {W : Location → Prop} {d e : Disk} {p : Path} {l : Location}
    (h : Edits W d e) (hl : e.locate p = .ok l) (hW : ¬ W l) : SameAt d e p := by
  have hnode := h.node?_eq hW
  have hold := h.locate hl fun n hn => ⟨n, hnode ▸ hn⟩
  refine ⟨hl.trans hold.symm, fun hm => ?_⟩
  obtain rfl := Except.ok.inj (hold.symm.trans hm)
  exact hnode

/-! ## Paths that may be refused -/

/-- The places that a walk comes by, with one at which nothing stands. -/
def trailFrom (d : Disk) (l : Location) : List String → List Location
  | [] => [l]
  | segment :: rest =>
    l :: match d.node? l with
      | some .directory =>
        if Path.isVoid segment then trailFrom d l rest
        else if segment = ".." then trailFrom d l.up rest
        else if nameLimit < segment.utf8ByteSize then []
        else trailFrom d (l.child segment) rest
      | _ => []

/-- The places that a path comes by. -/
def trail (d : Disk) (p : Path) : List Location :=
  d.trailFrom (d.origin p) p.segments

theorem mem_trailFrom_self (d : Disk) (l : Location) (segments : List String) :
    l ∈ d.trailFrom l segments := by
  cases segments <;> exact List.mem_cons_self

/-- A walk is determined by the nodes on its way, and so is what stands at its end. -/
theorem walk_congr {d e : Disk} {l : Location} {segments : List String}
    (h : ∀ m ∈ d.trailFrom l segments, e.node? m = d.node? m) :
    e.walk l segments = d.walk l segments ∧
      ∀ m, d.walk l segments = .ok m → e.node? m = d.node? m := by
  induction segments generalizing l with
  | nil =>
    refine ⟨rfl, fun m hm => ?_⟩
    cases hm
    exact h l List.mem_cons_self
  | cons segment rest ih =>
    have hl := h l List.mem_cons_self
    simp only [trailFrom] at h
    simp only [walk, hl]
    cases hnode : d.node? l with
    | none => exact ⟨rfl, fun _ hm => by cases hm⟩
    | some n =>
      cases n with
      | file c => exact ⟨rfl, fun _ hm => by cases hm⟩
      | directory =>
        simp only [hnode] at h
        dsimp only
        split_ifs at h ⊢
        · exact ih fun m hm => h m (List.mem_cons_of_mem _ hm)
        · exact ih fun m hm => h m (List.mem_cons_of_mem _ hm)
        · exact ⟨rfl, fun _ hm => by cases hm⟩
        · have hrest := ih fun m hm => h m (List.mem_cons_of_mem _ hm)
          rw [h _ (List.mem_cons_of_mem _ (mem_trailFrom_self d _ rest))]
          cases d.node? (l.child segment) with
          | none => exact ⟨rfl, fun _ hm => by cases hm⟩
          | some n => exact hrest

theorem Edits.sameAt_of_trail {W : Location → Prop} {d e : Disk} {p : Path} (h : Edits W d e)
    (hW : ∀ l ∈ d.trail p, ¬ W l) : SameAt d e p := by
  have hwalk := walk_congr fun l hl => h.node?_eq (hW l hl)
  constructor
  · simp only [Disk.locate, h.grows.origin, hwalk.1]
  · intro l hl
    obtain ⟨-, -, hl⟩ := except_bind_eq_ok.1 hl
    exact hwalk.2 l hl

end Disk

/-! ## Material libraries -/

theorem mapM_congr {ε α β : Type} {f g : α → Except ε β} {as : List α}
    (h : ∀ a ∈ as, f a = g a) : as.mapM f = as.mapM g := by
  induction as with
  | nil => rfl
  | cons a as ih =>
    obtain ⟨ha, has⟩ := List.forall_mem_cons.1 h
    rw [List.mapM_cons, List.mapM_cons, ha, ih has]

theorem Image.locate_of_fileDataUrl {d : Disk} {p : Path} {url : String}
    (h : fileDataUrl d p = .ok url) : ∃ l, d.locate p = .ok l := by
  unfold fileDataUrl at h
  cases hread : d.read p with
  | error fault => simp [hread] at h
  | ok bytes =>
    obtain ⟨l, hl, -⟩ := except_bind_eq_ok.1 hread
    exact ⟨l, Disk.locate_of_reach hl⟩

namespace Mtl

variable {d e : Disk} {directory : Path} {lines : List (List Char)}

theorem inlineLines_congr
    (h : ∀ line ∈ lines, ∀ file, neededImage? (body line) = some file →
      Image.fileDataUrl e (directory.join ⟨file⟩) = Image.fileDataUrl d (directory.join ⟨file⟩)) :
    inlineLines e directory lines = inlineLines d directory lines := by
  induction lines with
  | nil => rfl
  | cons line lines ih =>
    obtain ⟨hline, hlines⟩ := List.forall_mem_cons.1 h
    have hbody : inlineBody e directory (body line) = inlineBody d directory (body line) := by
      unfold inlineBody
      cases hfile : neededImage? (body line) with
      | none => rfl
      | some file => simp only [hline file hfile]
    simp only [inlineLines, hbody, ih hlines]

/-- All images can be read if the lines can be had. -/
theorem fileDataUrl_of_inlineLines {inlined : List (List Char)}
    (h : inlineLines d directory lines = .ok inlined) {line : List Char} (hline : line ∈ lines)
    {file : String} (hfile : neededImage? (body line) = some file) :
    ∃ url, Image.fileDataUrl d (directory.join ⟨file⟩) = .ok url := by
  induction lines generalizing inlined with
  | nil => cases hline
  | cons first rest ih =>
    obtain ⟨cs, hcs, h⟩ := except_bind_eq_ok.1 h
    obtain ⟨more, hmore, -⟩ := except_bind_eq_ok.1 h
    rcases List.mem_cons.1 hline with rfl | hline
    · simp only [inlineBody, hfile] at hcs
      obtain ⟨url, hurl, -⟩ := except_bind_eq_ok.1 hcs
      exact ⟨url, hurl⟩
    · exact ih hmore hline

end Mtl

namespace Embedder

variable {d e : Disk} {p : Path} {l : Location}

theorem mem_imagePaths {text : String} (hl : d.locate p = .ok l) (htext : d.readTextAt l = .ok text)
    (hmtl : isMtl l = true) {q : Path} :
    q ∈ Request.imagePaths d p ↔
      ∃ line ∈ Text.linesChars text.toList, ∃ file, Mtl.neededImage? (Mtl.body line) = some file ∧
        l.up.path.join ⟨file⟩ = q := by
  simp only [Request.imagePaths, hl, htext, hmtl, ↓reduceIte, List.mem_filterMap,
    Option.map_eq_some_iff]

/-- The text to embed is the same if the file and the images that it names are. -/
theorem content_congr (hl : d.locate p = .ok l) (hp : d.SameAt e p)
    (himages : ∀ q ∈ Request.imagePaths d p, d.SameAt e q) : content e l = content d l := by
  simp only [content, Disk.readTextAt_congr (hp.node? hl)]
  cases htext : d.readTextAt l with
  | error fault => rfl
  | ok text =>
    dsimp only
    split
    · rename_i hmtl
      simp only [Mtl.inlineImages]
      rw [Mtl.inlineLines_congr fun line hline file hfile => ?_]
      have hmem := (mem_imagePaths hl htext hmtl).2 ⟨line, hline, file, hfile, rfl⟩
      exact (himages _ hmem).fileDataUrl
    · rfl

/-- All images that a file names lead somewhere if its text can be had. -/
theorem locate_of_content (hl : d.locate p = .ok l) {text : String} (h : content d l = .ok text)
    {q : Path} (hq : q ∈ Request.imagePaths d p) : ∃ m, d.locate q = .ok m := by
  simp only [content] at h
  cases htext : d.readTextAt l with
  | error fault => simp [htext] at h
  | ok read =>
    by_cases hmtl : isMtl l = true
    · simp only [htext, hmtl, ↓reduceIte] at h
      obtain ⟨lines, hlines, -⟩ := except_bind_eq_ok.1 h
      obtain ⟨line, hline, file, hfile, rfl⟩ := (mem_imagePaths hl htext hmtl).1 hq
      obtain ⟨url, hurl⟩ := Mtl.fileDataUrl_of_inlineLines hlines hline hfile
      exact Image.locate_of_fileDataUrl hurl
    · simp [Request.imagePaths, hl, htext, hmtl] at hq

end Embedder

/-! ## Sets of images -/

namespace TextureLibrary

variable {d e : Disk} {base : Path} {files : List String} {found : List Location}

theorem mem_of_mapM {ε α β : Type} {f : α → Except ε β} {as : List α} {bs : List β}
    (h : as.mapM f = .ok bs) :
    (∀ a ∈ as, ∃ b, f a = .ok b) ∧ ∀ b ∈ bs, ∃ a ∈ as, f a = .ok b := by
  have hall := mapM_eq_ok_iff.1 h
  clear h
  induction hall with
  | nil => exact ⟨List.forall_mem_nil _, List.forall_mem_nil _⟩
  | cons hb _ ih =>
    refine ⟨List.forall_mem_cons.2 ⟨⟨_, hb⟩, ih.1⟩, ?_⟩
    refine List.forall_mem_cons.2 ⟨⟨_, List.mem_cons_self, hb⟩, fun b hmem => ?_⟩
    obtain ⟨a, ha, hab⟩ := ih.2 b hmem
    exact ⟨a, List.mem_cons_of_mem _ ha, hab⟩

theorem places_congr (h : ∀ file ∈ files, d.SameAt e (base.join ⟨file⟩)) :
    places e base files = places d base files := by
  unfold places
  rw [mapM_congr fun file hfile => (h file hfile).resolveAsset]

theorem locate_of_places (h : places d base files = .ok found) :
    (∀ file ∈ files, ∃ l, d.locate (base.join ⟨file⟩) = .ok l) ∧
      ∀ l ∈ found, ∃ file ∈ files, d.locate (base.join ⟨file⟩) = .ok l := by
  obtain ⟨ls, hls, hsorted⟩ := except_bind_eq_ok.1 h
  cases hsorted
  simp only [← resolveAsset_eq_ok, (List.mergeSort_perm ls _).mem_iff]
  exact mem_of_mapM hls

theorem urls_congr (hfound : places d base files = .ok found)
    (h : ∀ file ∈ files, d.SameAt e (base.join ⟨file⟩)) :
    found.mapM (Image.locationDataUrl e) = found.mapM (Image.locationDataUrl d) := by
  refine mapM_congr fun l hl => ?_
  obtain ⟨file, hfile, hlocate⟩ := (locate_of_places hfound).2 l hl
  simp only [Image.locationDataUrl, Disk.readAt_congr ((h file hfile).node? hlocate)]

end TextureLibrary

end SceneScript
