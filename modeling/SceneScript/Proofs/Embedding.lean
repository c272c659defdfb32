import SceneScript.Proofs.Registry

/-!
# Runs of an embedder

An embedder is a registry of modules by the places of their files (`Embedder.registry_lawful`).
`Embedder.embedded` lists the places that a run has embedded, and `embed_runs` says all about a
call in terms of it and of the disk: when the call succeeds, which number it gives, when it changes
nothing, and what the file of a module holds from then on.
-/

namespace SceneScript.Embedder

/-- Embedders at work on a disk, with the places of files as keys. -/
def registry : Registry (Embedder × Disk) String Location where
  serve s file := s.1.embed s.2 file
  key? s file := (s.2.locate (s.1.base.join ⟨file⟩)).toOption
  cached s := s.1.cached
  base s := s.1.base
  out s := s.1.out
  disk s := s.2

theorem key?_eq_some_iff {s : Embedder × Disk} {file : String} {l : Location} :
    registry.key? s file = some l ↔ s.2.locate (s.1.base.join ⟨file⟩) = .ok l :=
  except_toOption_eq_some

theorem registry_lawful : registry.Lawful .file where
  make_injective _ _ h := ModuleName.file.inj h
  serve_cases := by
    rintro s ⟨e, d⟩ file name h
    obtain ⟨l, hl, hcases⟩ := embed_cases h
    refine ⟨l, key?_eq_some_iff.2 (resolveAsset_eq_ok.1 hl), ?_⟩
    rcases hcases with ⟨hfound, rfl, rfl⟩ | ⟨hfresh, hname, text, -, hwrite, rfl⟩
    · exact .inl ⟨hfound, rfl⟩
    · exact .inr ⟨hfresh, hname, rfl, rfl, rfl, _, hwrite⟩

/-! ## One call -/

/-- A file that is embedded gets its module again, and nothing changes. -/
theorem embed_of_find? {e : Embedder} {d : Disk} {file : String} {l : Location} {name : ModuleName}
    (hl : resolveAsset d e.base file = .ok l) (hfind : e.find? l = some name) :
    e.embed d file = .ok (name, e, d) := by
  simp only [embed, hl, hfind, bind, Except.bind, pure, Except.pure]

/-- A new file gets the next module. -/
theorem embed_of_new {e : Embedder} {d d' : Disk} {file text : String} {l : Location}
    (hl : resolveAsset d e.base file = .ok l) (hfind : e.find? l = none)
    (htext : content d l = .ok text)
    (hwrite : writeGenerated d ((ModuleName.file e.size).path e.out)
      (moduleText (ModuleName.file e.size).text text) = .ok d') :
    e.embed d file = .ok (.file e.size,
      { e with
        cached := e.cached ++ [(l, .file e.size)]
        written := e.written ++ [(ModuleName.file e.size).path e.out] }, d') := by
  simp only [embed, hl, hfind, htext, hwrite, bind, Except.bind, pure, Except.pure]

theorem find?_eq_none_iff {e : Embedder} {l : Location} :
    e.find? l = none ↔ l ∉ e.cached.map Prod.fst := by
  rw [find?, List.lookup_eq_none_iff, List.mem_map]
  constructor
  · rintro h ⟨entry, hentry, rfl⟩
    simpa using h entry hentry
  · intro h entry hentry
    simpa using fun e => h ⟨entry, hentry, e.symm⟩

/-- A call succeeds if its path leads to a file that is embedded already, or to one that can be read
as text, with its images if it is a material library, and whose module can be written. -/
theorem embed_eq_ok_iff {e : Embedder} {d : Disk} {file : String} :
    (∃ answer, e.embed d file = .ok answer) ↔
      ∃ l, d.locate (e.base.join ⟨file⟩) = .ok l ∧
        (l ∈ e.cached.map Prod.fst ∨
          ∃ raw text d', d.readTextAt l = .ok raw ∧
            (if isMtl l then Mtl.inlineImages d l.up.path raw = .ok text else text = raw) ∧
            d.write ((ModuleName.file e.size).path e.out)
              (moduleText (ModuleName.file e.size).text text).toUTF8 = .ok d') := by
  constructor
  · rintro ⟨⟨name, e', d'⟩, h⟩
    obtain ⟨l, hl, hcases⟩ := embed_cases h
    refine ⟨l, resolveAsset_eq_ok.1 hl, ?_⟩
    rcases hcases with ⟨hfound, -⟩ | ⟨-, rfl, text, htext, hwrite, -⟩
    · exact .inl (List.mem_map_of_mem (mem_of_lookup hfound))
    · obtain ⟨raw, hraw, htext⟩ := content_eq_ok_iff.1 htext
      exact .inr ⟨raw, text, d', hraw, htext, hwrite⟩
  · rintro ⟨l, hl, hcases⟩
    have hl := resolveAsset_eq_ok.2 hl
    cases hfind : e.find? l with
    | some name => exact ⟨_, embed_of_find? hl hfind⟩
    | none =>
      rcases hcases with hmem | ⟨raw, text, d', hraw, htext, hwrite⟩
      · exact absurd hmem (find?_eq_none_iff.1 hfind)
      · have htext := content_eq_ok_iff.2 ⟨raw, hraw, htext⟩
        exact ⟨_, embed_of_new hl hfind htext (writeGenerated_eq_ok.2 hwrite)⟩

/-! ## Runs -/

/-- The places of the files that a run has embedded, each once and in the order in which they were
first embedded. -/
def embedded (s : Embedder × Disk) (files : List String) : List Location :=
  (registry.asked s files).eraseDups

/-- An embedder and a disk before the first call. -/
def atStart (base out : Path) (d : Disk) : Embedder × Disk :=
  (new base out, d)

section

variable (base out : Path) (d : Disk)

theorem base_run (files : List String) :
    (registry.run (atStart base out d) files).1.base = base :=
  (registry_lawful.directories_run files).1

theorem out_run (files : List String) : (registry.run (atStart base out d) files).1.out = out :=
  (registry_lawful.directories_run files).2

/-- The modules of an embedder are those of the files that it has embedded, numbered in order. -/
theorem cached_run (files : List String) :
    (registry.run (atStart base out d) files).1.cached =
      (embedded (atStart base out d) files).zipIdx.map
        fun entry => (entry.1, ModuleName.file entry.2) :=
  registry_lawful.cached_run rfl files

theorem size_run (files : List String) :
    (registry.run (atStart base out d) files).1.size =
      (embedded (atStart base out d) files).length := by
  rw [size, cached_run]
  simp

theorem places_run (files : List String) :
    (registry.run (atStart base out d) files).1.cached.map Prod.fst =
      embedded (atStart base out d) files := by
  rw [cached_run, List.map_map]
  exact List.zipIdx_map_fst 0 _

end

/-- The module of a new file goes on to hold the text that the file had when it was embedded. -/
theorem readText_run {base out : Path} {d : Disk} {earlier : List String} {file : String}
    {name : ModuleName} {t : Embedder × Disk} {l : Location}
    (h : registry.serve (registry.run (atStart base out d) earlier) file = .ok (name, t))
    (hl : (registry.run (atStart base out d) earlier).2.locate (base.join ⟨file⟩) = .ok l)
    (hnew : l ∉ embedded (atStart base out d) earlier) :
    ∃ raw text, (registry.run (atStart base out d) earlier).2.readTextAt l = .ok raw ∧
      (if isMtl l then
        Mtl.inlineImages (registry.run (atStart base out d) earlier).2 l.up.path raw = .ok text
        else text = raw) ∧
      ∀ later, (registry.run (atStart base out d) (earlier ++ file :: later)).2.readText
        (name.path out) = .ok (moduleText name.text text) := by
  have hbase := base_run base out d earlier
  have hout := out_run base out d earlier
  rw [← places_run, ← find?_eq_none_iff] at hnew
  obtain ⟨e, d'⟩ := t
  obtain ⟨l', hl', hcases⟩ := embed_cases h
  have hl' := resolveAsset_eq_ok.1 hl'
  obtain rfl : l = l' := by
    rw [hbase, hl] at hl'
    exact Except.ok.inj hl'
  rcases hcases with ⟨hfound, -, -⟩ | ⟨-, -, text, htext, hwrite, -⟩
  · rw [hnew] at hfound
    cases hfound
  · rw [hout] at hwrite
    have hkey := key?_eq_some_iff.2 hl'
    obtain ⟨raw, hraw, htext⟩ := content_eq_ok_iff.1 htext
    exact ⟨raw, text, hraw, htext, fun later => Disk.readText_of_read
      (registry_lawful.read_run_of_new h hkey hnew (Disk.read_of_write hwrite) later)⟩

/-- All about a call after any earlier calls, of which some may have failed.

* The embedder knows the files that were embedded so far, each by its number.
* The call succeeds just if its path leads to one of these files, or to a file that is text, whose
  images can be had if it is a material library, and for which the next module can be written. If it
  fails, nothing changes, nor does the step of an emission that makes it.
* If it succeeds, the number it gives is the position of its file among the files embedded so far,
  and a file that was embedded already changes nothing.
* A later call that succeeds gives the same module just if its path leads to the same file.
* The module of a new file holds, after all later calls, the text that the file had at this call,
  with the images of that time if it is a material library. -/
theorem embed_runs (base out : Path) (d : Disk) (earlier : List String) (file : String) :
    let start := atStart base out d
    let s := registry.run start earlier
    let before := embedded start earlier
    let binding (k : Nat) := "EXTRA_FILE_" ++ toString k
    let target (k : Nat) := out.join ⟨binding k ++ ".js"⟩
    let script (k : Nat) (text : String) :=
      "export const " ++ binding k ++ " = " ++ Text.quote text ++ ";\n"
    s.1.cached = before.zipIdx.map (fun entry => (entry.1, ModuleName.file entry.2)) ∧
      ((∃ answer, s.1.embed s.2 file = .ok answer) ↔
        ∃ l, s.2.locate (base.join ⟨file⟩) = .ok l ∧
          (l ∈ before ∨ ∃ raw text d', s.2.readTextAt l = .ok raw ∧
            (if isMtl l then Mtl.inlineImages s.2 l.up.path raw = .ok text else text = raw) ∧
            s.2.write (target before.length) (script before.length text).toUTF8 = .ok d')) ∧
      (∀ e, s.1.embed s.2 file = .error e →
        registry.run start (earlier ++ [file]) = s ∧
          ∀ u : Session, u.embedder = s.1 → u.disk = s.2 →
            (Emit.embed file).run u = .error e u) ∧
      ∀ name e' d', s.1.embed s.2 file = .ok (name, e', d') →
        registry.run start (earlier ++ [file]) = (e', d') ∧
        ∃ l k, s.2.locate (base.join ⟨file⟩) = .ok l ∧
          name = .file k ∧ name.text = binding k ∧
          (embedded start (earlier ++ [file]))[k]? = some l ∧
          (l ∈ before → e' = s.1 ∧ d' = s.2) ∧
          (∀ later other name' e'' d'',
            let s' := registry.run start (earlier ++ file :: later)
            s'.1.embed s'.2 other = .ok (name', e'', d'') →
              (name = name' ↔ s'.2.locate (base.join ⟨other⟩) = .ok l)) ∧
          (l ∉ before → ∃ raw text, s.2.readTextAt l = .ok raw ∧
            (if isMtl l then Mtl.inlineImages s.2 l.up.path raw = .ok text else text = raw) ∧
            ∀ later, (registry.run start (earlier ++ file :: later)).2.readText (target k) =
              .ok (script k text)) := by
  intro start s before binding target script
  have hbase : s.1.base = base := base_run base out d earlier
  have hout : s.1.out = out := out_run base out d earlier
  have hplaces : s.1.cached.map Prod.fst = before := places_run base out d earlier
  refine ⟨cached_run base out d earlier, ?_, fun e he => ⟨?_, ?_⟩, fun name e' d' h => ?_⟩
  · have hsize : s.1.size = before.length := size_run base out d earlier
    rw [embed_eq_ok_iff, hbase, hout, hsize, hplaces]
    rfl
  · rw [registry.run_append, Registry.run_singleton_of_error he]
  · intro u hembedder hdisk
    rw [Emit.run_embed, hembedder, hdisk, he]
  · have hserve : registry.serve s file = .ok (name, e', d') := h
    refine ⟨by rw [registry.run_append, Registry.run_singleton_of_ok hserve], ?_⟩
    obtain ⟨l, hl, hcases⟩ := embed_cases h
    have hl := resolveAsset_eq_ok.1 hl
    have hkey : registry.key? s file = some l := key?_eq_some_iff.2 hl
    have hname := registry_lawful.name_eq_rank rfl hserve hkey
    rw [hbase] at hl
    refine ⟨l, _, hl, hname, by rw [hname]; rfl, ?_, fun hmem => ?_, ?_, fun hnew => ?_⟩
    · have hmem : l ∈ (registry.asked start (earlier ++ [file])).eraseDups := by
        rw [List.mem_eraseDups, registry.asked_append, Registry.asked_singleton_of_ok hserve hkey]
        simp
      exact List.getElem?_idxOf hmem
    · rcases hcases with ⟨-, he, hd⟩ | ⟨hfresh, -⟩
      · exact ⟨he, hd⟩
      · rw [← hplaces] at hmem
        exact absurd hmem (find?_eq_none_iff.1 hfresh)
    · intro later other name' e'' d'' s' h'
      have hbase' : s'.1.base = base := base_run base out d (earlier ++ file :: later)
      obtain ⟨l', hl', -⟩ := embed_cases h'
      have hl' := resolveAsset_eq_ok.1 hl'
      rw [registry_lawful.name_eq_iff rfl hserve hkey h' (key?_eq_some_iff.2 hl'), ← hbase', hl',
        Except.ok.injEq, eq_comm]
    · obtain ⟨raw, text, hraw, htext, hread⟩ := readText_run hserve hl hnew
      refine ⟨raw, text, hraw, htext, fun later => ?_⟩
      rw [hname] at hread
      exact hread later

/-- A material library with its image, and one whose image is missing. -/
def paintDisk : Disk where
  cwd := .root
  nodes :=
    [(⟨["paint.mtl"]⟩, .file "map_Kd wood.png\n".toUTF8), (⟨["wood.png"]⟩, .file "wood".toUTF8),
      (⟨["bare.mtl"]⟩, .file "bump gone.png\n".toUTF8), (⟨["out"]⟩, .directory)]

theorem inlineImages_paint : Mtl.inlineImages paintDisk ⟨"/"⟩ "map_Kd wood.png\n" =
    .ok "map_Kd data:image/png;base64,d29vZA==\n" :=
  except_toOption_eq_some.1 (by decide +kernel)

/-- The first library is embedded with its image, the second one is refused and changes nothing, and
another spelling of the first one gives its module again. -/
theorem embed_runs_paint :
    let start := atStart ⟨"/"⟩ ⟨"/out"⟩ paintDisk
    let s := registry.run start ["paint.mtl"]
    (∃ e, s.1.embed s.2 "bare.mtl" = .error e ∧
        registry.run start ["paint.mtl", "bare.mtl"] = s) ∧
      s.1.embed s.2 "./out/../paint.mtl" = .ok (.file 0, s) ∧
      ∀ later, (registry.run start ("paint.mtl" :: later)).2.readText ⟨"/out/EXTRA_FILE_0.js"⟩ =
        .ok "export const EXTRA_FILE_0 = \"map_Kd data:image/png;base64,d29vZA==\\n\";\n" := by
  intro start s
  have hknown : embedded start ["paint.mtl"] = [⟨["paint.mtl"]⟩] := by decide +kernel
  have hrefused : (s.1.embed s.2 "bare.mtl").toOption.isNone = true := by decide +kernel
  have hspelled : registry.key? s "./out/../paint.mtl" = some ⟨["paint.mtl"]⟩ := by decide +kernel
  -- the first call finds its text, and nothing stands in the way of its module
  obtain ⟨-, hsucceeds, -, hfirst⟩ := embed_runs ⟨"/"⟩ ⟨"/out"⟩ paintDisk [] "paint.mtl"
  have hmtl : isMtl ⟨["paint.mtl"]⟩ = true := by decide +kernel
  obtain ⟨⟨name, e', d'⟩, hembed⟩ := hsucceeds.2 ⟨⟨["paint.mtl"]⟩, rfl,
    .inr ⟨"map_Kd wood.png\n", _, _, rfl, (if_pos hmtl).mpr inlineImages_paint, rfl⟩⟩
  obtain ⟨-, l, k, hl, hname, -, hk, -, hlater, htext⟩ := hfirst name e' d' hembed
  obtain rfl : l = ⟨["paint.mtl"]⟩ := (Except.ok.inj hl).symm
  obtain rfl : k = 0 := by
    have hk : (embedded start ["paint.mtl"])[k]? = some ⟨["paint.mtl"]⟩ := hk
    rw [hknown] at hk
    obtain ⟨hlt, -⟩ := List.getElem?_eq_some_iff.1 hk
    exact Nat.lt_one_iff.1 hlt
  refine ⟨?_, ?_, ?_⟩
  · obtain ⟨-, -, hfails, -⟩ := embed_runs ⟨"/"⟩ ⟨"/out"⟩ paintDisk ["paint.mtl"] "bare.mtl"
    cases hbare : s.1.embed s.2 "bare.mtl" with
    | ok answer =>
      rw [hbare] at hrefused
      cases hrefused
    | error e => exact ⟨e, rfl, (hfails e hbare).1⟩
  · obtain ⟨-, hsucceeds, -, hagain⟩ :=
      embed_runs ⟨"/"⟩ ⟨"/out"⟩ paintDisk ["paint.mtl"] "./out/../paint.mtl"
    have hbase : s.1.base = ⟨"/"⟩ := base_run ⟨"/"⟩ ⟨"/out"⟩ paintDisk ["paint.mtl"]
    have hplace := key?_eq_some_iff.1 hspelled
    rw [hbase] at hplace
    have hmem : (⟨["paint.mtl"]⟩ : Location) ∈ embedded start ["paint.mtl"] := by
      rw [hknown]
      exact List.mem_singleton.2 rfl
    obtain ⟨⟨name', e'', d''⟩, hspelling⟩ := hsucceeds.2 ⟨_, hplace, .inl hmem⟩
    obtain ⟨-, l', -, hl', -, -, -, hsame, -⟩ := hagain name' e'' d'' hspelling
    obtain rfl := Except.ok.inj (hplace.symm.trans hl')
    obtain ⟨rfl, rfl⟩ := hsame hmem
    have hnames := (hlater [] "./out/../paint.mtl" name' _ _ hspelling).2 hplace
    rw [hspelling, ← hnames, hname]
  · intro later
    obtain ⟨raw, text, hraw, hinlined, hread⟩ := htext List.not_mem_nil
    obtain rfl : raw = "map_Kd wood.png\n" := (Except.ok.inj hraw).symm
    rw [if_pos hmtl] at hinlined
    obtain rfl := Except.ok.inj (inlineImages_paint.symm.trans hinlined)
    exact hread later

end SceneScript.Embedder
