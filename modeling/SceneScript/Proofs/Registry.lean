import Mathlib.Data.List.Infix
import SceneScript.Proofs.GeneratedModules

/-!
# Registries of numbered modules

The embedder and the texture library both keep a module for each key that was asked for: a key that
is known gets its module and nothing changes, a new key gets the next number and the file of its
module is written, and a request that fails changes nothing. `Registry` is what they have in common,
and `Registry.Lawful` is this rule. What follows for whole runs, in which requests may fail:

* `cached_run`: the modules are those of the distinct keys, in the order of their first success;
* `name_eq_rank`, `name_eq_iff`: a request gets the number of its key, so two requests get the same
  module just if they ask for the same key;
* `read_run`: the file of a module stays as it was written;
* `exists_maker`: the module that a request gets was made by a request for the same key.
-/

namespace SceneScript

/-! ## The files of different modules -/

/-- A file name at the end of a path is its last segment, behind segments that are the same for all
names. -/
theorem Path.exists_segments_join_all (p : Path) :
    ∃ before, ∀ name : String, '/' ∉ name.toList →
      (p.join ⟨name⟩).segments = before ++ [name] := by
  obtain ⟨before, hbefore⟩ := p.exists_segments_join_relative
  refine ⟨before, fun name h => ?_⟩
  have hrelative : (Path.mk name).isAbsolute = false := by
    have : name.toList.head? ≠ some '/' := fun e => h (List.mem_of_head? e)
    simpa [isAbsolute] using this
  rw [hbefore ⟨name⟩ hrelative]
  simp [segments, Text.split, Text.splitChars_of_not_mem h]

theorem Path.exists_segments_join (p : Path) {name : String} (h : '/' ∉ name.toList) :
    ∃ before, (p.join ⟨name⟩).segments = before ++ [name] := by
  obtain ⟨before, hsegments⟩ := p.exists_segments_join_all
  exact ⟨before, hsegments name h⟩

/-- The extension of a name is what was put behind a point, if anything stands before it. -/
theorem Path.cutName_append {stem extension : String} (hstem : stem ≠ "")
    (hpoint : '.' ∉ extension.toList) :
    cutName (stem ++ "." ++ extension) = (stem, some extension) := by
  have hreverse : (stem ++ "." ++ extension).toList.reverse =
      extension.toList.reverse ++ '.' :: stem.toList.reverse := by simp
  have hafter : ∀ c ∈ extension.toList.reverse, (decide (c ≠ '.')) = true := by
    intro c hc
    simp only [ne_eq, decide_not, Bool.not_eq_eq_eq_not, Bool.not_true, decide_eq_false_iff_not]
    rintro rfl
    exact hpoint (List.mem_reverse.1 hc)
  obtain ⟨c, cs, hcs⟩ : ∃ c cs, stem.toList.reverse = c :: cs :=
    List.exists_cons_of_ne_nil fun e => hstem (String.toList_inj.1 (List.reverse_eq_nil_iff.1 e))
  have htake : (extension.toList.reverse ++ '.' :: stem.toList.reverse).takeWhile (· ≠ '.') =
      extension.toList.reverse := (List.takeWhile_append_of_pos hafter).trans (by simp)
  have hdrop : (extension.toList.reverse ++ '.' :: stem.toList.reverse).dropWhile (· ≠ '.') =
      '.' :: c :: cs := (List.dropWhile_append_of_pos hafter).trans (by simp [hcs])
  simp only [cutName, hreverse, htake, hdrop]
  rw [← hcs, List.reverse_reverse, List.reverse_reverse, String.ofList_toList, String.ofList_toList]

namespace ModuleName

/-- The name of a module's file. -/
def fileName (name : ModuleName) : String :=
  name.text ++ ".js"

theorem fileName_injective : Function.Injective fileName := by
  intro a b h
  have h := congrArg String.toList h
  simp only [fileName, String.toList_append] at h
  exact text_injective (String.toList_inj.1 (List.append_cancel_right h))

theorem slash_not_mem_fileName (name : ModuleName) : '/' ∉ name.fileName.toList := by
  rw [fileName, String.toList_append, List.mem_append, not_or]
  exact ⟨name.not_mem_text (by decide) (by decide), by decide⟩

theorem length_fileName (name : ModuleName) : 2 < name.fileName.toList.length := by
  simp only [fileName, String.toList_append, List.length_append]
  have : ".js".toList.length = 3 := rfl
  omega

theorem cutName_fileName (name : ModuleName) : (Path.cutName name.fileName).2 = some "js" := by
  have htext : name.text ≠ "" := by cases name <;> simp [text]
  have hcut := Path.cutName_append htext (show '.' ∉ "js".toList by decide)
  rw [fileName, show ".js" = "." ++ "js" from rfl, ← String.append_assoc, hcut]

/-- The files of all modules have their names behind the same segments. -/
theorem exists_endsWith_path (out : Path) :
    ∃ before, ∀ name : ModuleName, Disk.EndsWith (name.path out) before name.fileName := by
  obtain ⟨before, hsegments⟩ := out.exists_segments_join_all
  refine ⟨before, fun name => ?_⟩
  have hlength := name.length_fileName
  have short {text : String} (ht : text.toList.length ≤ 2) : name.fileName ≠ text := by
    rintro rfl
    omega
  have hempty : name.fileName ≠ "" := short (by decide)
  have hdot : name.fileName ≠ "." := short (by decide)
  refine ⟨hsegments _ name.slash_not_mem_fileName, ?_, short (by decide)⟩
  simp [Path.isVoid, hempty, hdot]

theorem endsWith_path (out : Path) (name : ModuleName) :
    ∃ before, Disk.EndsWith (name.path out) before name.fileName := by
  obtain ⟨before, hends⟩ := exists_endsWith_path out
  exact ⟨before, hends name⟩

theorem path_injective (out : Path) :
    Function.Injective fun name : ModuleName => name.path out := by
  intro name other h
  obtain ⟨before, hname⟩ := endsWith_path out name
  obtain ⟨before', hother⟩ := endsWith_path out other
  have hsegments : before ++ [name.fileName] = before' ++ [other.fileName] := by
    rw [← hname.segments, ← hother.segments]
    exact congrArg Path.segments h
  exact fileName_injective (List.cons.inj (List.append_inj' hsegments rfl).2).1

/-- Writing the file of one module leaves that of another as it is. -/
theorem read_path_of_write {d d' : Disk} {out : Path} {name other : ModuleName}
    {contents c : ByteArray} (hne : other ≠ name) (hread : d.read (other.path out) = .ok c)
    (hwrite : d.write (name.path out) contents = .ok d') : d'.read (other.path out) = .ok c := by
  obtain ⟨_, hname⟩ := endsWith_path out name
  obtain ⟨_, hother⟩ := endsWith_path out other
  exact Disk.read_write_of_last_ne hname hother (fun e => hne (fileName_injective e.symm)) hread
    hwrite

end ModuleName

/-! ## Numbers of keys -/

section

variable {κ : Type} [BEq κ]

/-- How many other keys come before the first appearance of a key. -/
def rank (keys : List κ) (key : κ) : Nat :=
  keys.eraseDups.idxOf key

/-- The modules of the distinct keys, numbered in the order in which the keys come first. -/
def numbering (make : Nat → ModuleName) (keys : List κ) : List (κ × ModuleName) :=
  keys.eraseDups.zipIdx.map fun entry => (entry.1, make entry.2)

variable [LawfulBEq κ]

theorem eraseDups_snoc_of_mem {keys : List κ} {key : κ} (h : key ∈ keys) :
    (keys ++ [key]).eraseDups = keys.eraseDups := by
  simp [List.eraseDups_append, List.removeAll, h]

theorem eraseDups_snoc {keys : List κ} {key : κ} (h : key ∉ keys) :
    (keys ++ [key]).eraseDups = keys.eraseDups ++ [key] := by
  simp [List.eraseDups_append, List.removeAll, h, List.eraseDups_cons]

theorem numbering_snoc_of_mem {make : Nat → ModuleName} {keys : List κ} {key : κ}
    (h : key ∈ keys) : numbering make (keys ++ [key]) = numbering make keys := by
  simp only [numbering, eraseDups_snoc_of_mem h]

theorem numbering_snoc {make : Nat → ModuleName} {keys : List κ} {key : κ} (h : key ∉ keys) :
    numbering make (keys ++ [key]) =
      numbering make keys ++ [(key, make (numbering make keys).length)] := by
  simp [numbering, eraseDups_snoc h, List.zipIdx_append]

theorem lookup_numbering (make : Nat → ModuleName) (keys : List κ) (key : κ) :
    (numbering make keys).lookup key =
      if key ∈ keys then some (make (rank keys key)) else none := by
  have shifted (keys : List κ) (n : Nat) :
      ((keys.zipIdx n).map fun entry => (entry.1, make entry.2)).lookup key =
        if key ∈ keys then some (make (n + keys.idxOf key)) else none := by
    induction keys generalizing n with
    | nil => rfl
    | cons first keys ih =>
      rw [List.zipIdx_cons, List.map_cons, List.lookup_cons, ih]
      by_cases h : key = first
      · simp [h]
      · have hfirst : (first == key) = false := by simpa using Ne.symm h
        have hkey : (key == first) = false := by simpa using h
        simp [h, hkey, List.idxOf_cons, hfirst, Nat.add_assoc, Nat.add_comm 1]
  rw [numbering, shifted]
  simp [rank]

theorem rank_append {keys : List κ} {key : κ} (h : key ∈ keys) (more : List κ) :
    rank (keys ++ more) key = rank keys key := by
  rw [rank, List.eraseDups_append, List.idxOf_append_of_mem (List.mem_eraseDups.2 h), rank]

theorem rank_inj {keys : List κ} {key other : κ} (h : key ∈ keys) :
    rank keys key = rank keys other ↔ key = other :=
  List.idxOf_inj (List.mem_eraseDups.2 h)

end

/-! ## Registries -/

/-- A store of numbered modules as its clients see it: what a request gives, which key it asks for,
and what the state holds. -/
structure Registry (σ ρ κ : Type) where
  serve : σ → ρ → Except Error (ModuleName × σ)
  key? : σ → ρ → Option κ
  cached : σ → List (κ × ModuleName)
  base : σ → Path
  out : σ → Path
  disk : σ → Disk

namespace Registry

variable {σ ρ κ : Type}

section

variable (R : Registry σ ρ κ)

/-- The state after a request. One that fails changes nothing. -/
def after (s : σ) (r : ρ) : σ :=
  match R.serve s r with
  | .ok (_, t) => t
  | .error _ => s

/-- The state after several requests, whichever of them fail. -/
def run (s : σ) (rs : List ρ) : σ :=
  rs.foldl R.after s

/-- The keys of the requests that succeed, one after the other. -/
def asked (s : σ) : List ρ → List κ
  | [] => []
  | r :: rs =>
    (match R.serve s r with
      | .ok _ => (R.key? s r).toList
      | .error _ => []) ++
      asked (R.after s r) rs

@[simp]
theorem run_nil (s : σ) : R.run s [] = s := rfl

theorem run_append (s : σ) (rs qs : List ρ) : R.run s (rs ++ qs) = R.run (R.run s rs) qs :=
  List.foldl_append

theorem asked_append (s : σ) (rs qs : List ρ) :
    R.asked s (rs ++ qs) = R.asked s rs ++ R.asked (R.run s rs) qs := by
  induction rs generalizing s with
  | nil => rfl
  | cons r rs ih =>
    rw [List.cons_append, asked, ih, asked, List.append_assoc]
    rfl

end

variable {R : Registry σ ρ κ} {s t : σ} {r : ρ} {name : ModuleName} {key : κ}

theorem run_singleton_of_ok (h : R.serve s r = .ok (name, t)) : R.run s [r] = t := by
  simp [run, after, h]

theorem run_singleton_of_error {e : Error} (h : R.serve s r = .error e) : R.run s [r] = s := by
  simp [run, after, h]

theorem asked_singleton_of_ok (h : R.serve s r = .ok (name, t)) (hkey : R.key? s r = some key) :
    R.asked s [r] = [key] := by
  simp [asked, h, hkey]

theorem asked_singleton_of_error {e : Error} (h : R.serve s r = .error e) :
    R.asked s [r] = [] := by
  simp [asked, h]

/-- A key that is known gets its module and nothing changes. A new key gets the next number, and the
file of its module is written. -/
structure Lawful [BEq κ] (R : Registry σ ρ κ) (make : Nat → ModuleName) : Prop where
  make_injective : Function.Injective make
  serve_cases {s t : σ} {r : ρ} {name : ModuleName} (h : R.serve s r = .ok (name, t)) :
    ∃ key, R.key? s r = some key ∧
      ((R.cached s).lookup key = some name ∧ t = s ∨
        (R.cached s).lookup key = none ∧ name = make (R.cached s).length ∧
          R.cached t = R.cached s ++ [(key, name)] ∧ R.base t = R.base s ∧ R.out t = R.out s ∧
          ∃ contents, (R.disk s).write (name.path (R.out s)) contents = .ok (R.disk t))

namespace Lawful

variable [BEq κ] {make : Nat → ModuleName} (L : R.Lawful make)

include L

/-! ### The files of the modules -/

theorem directories_run (rs : List ρ) :
    R.base (R.run s rs) = R.base s ∧ R.out (R.run s rs) = R.out s := by
  induction rs using List.reverseRecOn with
  | nil => exact ⟨rfl, rfl⟩
  | append_singleton rs r ih =>
    rw [R.run_append]
    cases hserve : R.serve (R.run s rs) r with
    | error e => rwa [run_singleton_of_error hserve]
    | ok answer =>
      obtain ⟨name, t⟩ := answer
      rw [run_singleton_of_ok hserve]
      obtain ⟨key, -, ⟨-, rfl⟩ | ⟨-, -, -, hbase, hout, -⟩⟩ := L.serve_cases hserve
      · exact ih
      · rwa [hbase, hout]

/-- A module that has its number keeps the contents of its file through every request. -/
theorem read_step {k : Nat} {contents : ByteArray} (hk : k < (R.cached s).length)
    (hread : (R.disk s).read ((make k).path (R.out s)) = .ok contents) (r : ρ) :
    k < (R.cached (R.run s [r])).length ∧
      (R.disk (R.run s [r])).read ((make k).path (R.out s)) = .ok contents := by
  cases hserve : R.serve s r with
  | error e =>
    rw [run_singleton_of_error hserve]
    exact ⟨hk, hread⟩
  | ok answer =>
    obtain ⟨name, t⟩ := answer
    rw [run_singleton_of_ok hserve]
    obtain ⟨key, -, ⟨-, rfl⟩ | ⟨-, rfl, hcached, -, -, c, hwrite⟩⟩ := L.serve_cases hserve
    · exact ⟨hk, hread⟩
    · have hlength : (R.cached t).length = (R.cached s).length + 1 := by simp [hcached]
      have hother : make k ≠ make (R.cached s).length := by
        intro e
        have := L.make_injective e
        omega
      exact ⟨by omega, ModuleName.read_path_of_write hother hread hwrite⟩

/-- The file of a module stays as it was written, whatever is asked for later. -/
theorem read_run {k : Nat} {contents : ByteArray} (hk : k < (R.cached s).length)
    (hread : (R.disk s).read ((make k).path (R.out s)) = .ok contents) (rs : List ρ) :
    (R.disk (R.run s rs)).read ((make k).path (R.out s)) = .ok contents := by
  suffices h : k < (R.cached (R.run s rs)).length ∧
      (R.disk (R.run s rs)).read ((make k).path (R.out s)) = .ok contents from h.2
  induction rs using List.reverseRecOn with
  | nil => exact ⟨hk, hread⟩
  | append_singleton rs r ih =>
    rw [← (L.directories_run rs).2] at ih ⊢
    rw [R.run_append]
    exact L.read_step ih.1 ih.2 r

/-- The file of a module that a request makes holds the same after all later requests. -/
theorem read_run_of_new {rs : List ρ} {contents : ByteArray}
    (h : R.serve (R.run s rs) r = .ok (name, t)) (hkey : R.key? (R.run s rs) r = some key)
    (hnew : (R.cached (R.run s rs)).lookup key = none)
    (hread : (R.disk t).read (name.path (R.out s)) = .ok contents) (later : List ρ) :
    (R.disk (R.run s (rs ++ r :: later))).read (name.path (R.out s)) = .ok contents := by
  have hrun : R.run s (rs ++ r :: later) = R.run t later := by
    rw [R.run_append, ← List.singleton_append, R.run_append, run_singleton_of_ok h]
  obtain ⟨key', hkey', hcases⟩ := L.serve_cases h
  obtain rfl : key = key' := Option.some.inj (hkey.symm.trans hkey')
  rcases hcases with ⟨hfound, -⟩ | ⟨-, rfl, hcached, -, hout, -⟩
  · rw [hnew] at hfound
    cases hfound
  · rw [(L.directories_run rs).2] at hout
    rw [← hout] at hread ⊢
    rw [hrun]
    refine L.read_run ?_ hread later
    simp [hcached]

/-! ### The numbers of the modules -/

variable [LawfulBEq κ]

/-- Afterwards the key of a request has the module that the request got. -/
theorem lookup_of_serve (h : R.serve s r = .ok (name, t)) (hkey : R.key? s r = some key) :
    (R.cached t).lookup key = some name := by
  obtain ⟨key', hkey', hcases⟩ := L.serve_cases h
  obtain rfl : key = key' := Option.some.inj (hkey.symm.trans hkey')
  rcases hcases with ⟨hfound, rfl⟩ | ⟨hfresh, -, hgrown, -⟩
  · exact hfound
  · simp [hgrown, List.lookup_append, hfresh]

/-- The modules are those of the distinct keys that were asked for with success. -/
theorem cached_run (hs : R.cached s = []) (rs : List ρ) :
    R.cached (R.run s rs) = numbering make (R.asked s rs) := by
  induction rs using List.reverseRecOn with
  | nil => exact hs
  | append_singleton rs r ih =>
    rw [R.run_append, R.asked_append]
    cases hserve : R.serve (R.run s rs) r with
    | error e =>
      rw [run_singleton_of_error hserve, asked_singleton_of_error hserve, List.append_nil, ih]
    | ok answer =>
      obtain ⟨name, t⟩ := answer
      obtain ⟨key, hkey, hcases⟩ := L.serve_cases hserve
      rw [run_singleton_of_ok hserve, asked_singleton_of_ok hserve hkey]
      rw [ih, lookup_numbering] at hcases
      rcases hcases with ⟨hfound, rfl⟩ | ⟨hfresh, rfl, hcached, -⟩
      · have hmem : key ∈ R.asked s rs := by
          by_contra hmem
          simp [hmem] at hfound
        rw [numbering_snoc_of_mem hmem, ih]
      · have hmem : key ∉ R.asked s rs := fun hmem => by simp [hmem] at hfresh
        rw [numbering_snoc hmem, hcached]

/-- A request that succeeds gets the number of its key. -/
theorem name_eq_rank (hs : R.cached s = []) {rs : List ρ}
    (h : R.serve (R.run s rs) r = .ok (name, t)) (hkey : R.key? (R.run s rs) r = some key) :
    name = make (rank (R.asked s (rs ++ [r])) key) := by
  have hcached := L.cached_run hs (rs ++ [r])
  rw [R.run_append, run_singleton_of_ok h] at hcached
  have hmem : key ∈ R.asked s (rs ++ [r]) := by
    rw [R.asked_append, asked_singleton_of_ok h hkey]
    simp
  have hlookup := L.lookup_of_serve h hkey
  rw [hcached, lookup_numbering, if_pos hmem] at hlookup
  exact (Option.some.inj hlookup).symm

/-- Two requests get the same module just if they ask for the same key. -/
theorem name_eq_iff (hs : R.cached s = []) {rs later : List ρ} {r' : ρ} {name' : ModuleName}
    {t' : σ} {key' : κ} (h : R.serve (R.run s rs) r = .ok (name, t))
    (hkey : R.key? (R.run s rs) r = some key)
    (h' : R.serve (R.run s (rs ++ r :: later)) r' = .ok (name', t'))
    (hkey' : R.key? (R.run s (rs ++ r :: later)) r' = some key') :
    name = name' ↔ key = key' := by
  have hmem : key ∈ R.asked s (rs ++ [r]) := by
    rw [R.asked_append, asked_singleton_of_ok h hkey]
    simp
  have hsplit : rs ++ r :: later ++ [r'] = (rs ++ [r]) ++ (later ++ [r']) := by simp
  have hrank : rank (R.asked s (rs ++ r :: later ++ [r'])) key =
      rank (R.asked s (rs ++ [r])) key := by
    rw [hsplit, R.asked_append, rank_append hmem]
  have hlater : key ∈ R.asked s (rs ++ r :: later ++ [r']) := by
    rw [hsplit, R.asked_append]
    exact List.mem_append_left _ hmem
  rw [L.name_eq_rank hs h hkey, L.name_eq_rank hs h' hkey', L.make_injective.eq_iff, ← hrank,
    rank_inj hlater]

/-! ### The makers of the modules -/

/-- A module that is cached for a key was made by a request for that key, which was new then. -/
theorem exists_maker_of_cached (hs : R.cached s = []) {rs : List ρ}
    (h : (R.cached (R.run s rs)).lookup key = some name) :
    ∃ before maker later u, rs = before ++ maker :: later ∧
      R.key? (R.run s before) maker = some key ∧
      (R.cached (R.run s before)).lookup key = none ∧
      R.serve (R.run s before) maker = .ok (name, u) := by
  induction rs using List.reverseRecOn with
  | nil => simp [hs] at h
  | append_singleton rs r ih =>
    -- a request that makes no module for this key leaves the earlier maker
    have earlier (hcached : (R.cached (R.run s rs)).lookup key = some name) :
        ∃ before maker later u, rs ++ [r] = before ++ maker :: later ∧
          R.key? (R.run s before) maker = some key ∧
          (R.cached (R.run s before)).lookup key = none ∧
          R.serve (R.run s before) maker = .ok (name, u) := by
      obtain ⟨before, maker, later, u, rfl, hmaker⟩ := ih hcached
      exact ⟨before, maker, later ++ [r], u, by simp, hmaker⟩
    rw [R.run_append] at h
    cases hserve : R.serve (R.run s rs) r with
    | error e =>
      rw [run_singleton_of_error hserve] at h
      exact earlier h
    | ok answer =>
      obtain ⟨name', t⟩ := answer
      rw [run_singleton_of_ok hserve] at h
      obtain ⟨key', hkey', ⟨-, rfl⟩ | ⟨hfresh, rfl, hgrown, -⟩⟩ := L.serve_cases hserve
      · exact earlier h
      · cases hold : (R.cached (R.run s rs)).lookup key with
        | some old =>
          rw [hgrown, List.lookup_append, hold, Option.some_or] at h
          exact earlier (hold.trans h)
        | none =>
          rw [hgrown, List.lookup_append, hold, Option.none_or] at h
          obtain ⟨rfl, rfl⟩ : key = key' ∧ name = make (R.cached (R.run s rs)).length := by
            have := mem_of_lookup h
            simpa using this
          exact ⟨rs, r, [], t, rfl, hkey', hold, hserve⟩

/-- The module that a request gets was made by a request for the same key, which was new then. -/
theorem exists_maker (hs : R.cached s = []) {rs : List ρ}
    (h : R.serve (R.run s rs) r = .ok (name, t)) (hkey : R.key? (R.run s rs) r = some key) :
    ∃ before maker later u, rs ++ [r] = before ++ maker :: later ∧
      R.key? (R.run s before) maker = some key ∧
      (R.cached (R.run s before)).lookup key = none ∧
      R.serve (R.run s before) maker = .ok (name, u) := by
  refine L.exists_maker_of_cached hs ?_
  rw [R.run_append, run_singleton_of_ok h]
  exact L.lookup_of_serve h hkey

end Lawful

end Registry

end SceneScript
