import SceneScript.Proofs.ImageInlining
import SceneScript.Proofs.QuotedText

/-!
# Reading texture modules

The module of a texture is written by three encoders, one inside the other: the bytes of each image
in Base64, behind the media type in a data URL, and the URL as a quoted text in the call of a
loader. `Script.texture?` reads such a module as the programs do, without knowing how many images it
holds. It gives back the name, the kind and the URLs (`texture?_moduleText`). What follows the last
comma of a URL is the image, whatever the media type is (`decode?_dataUrl`).

`texture_modules_read_back` puts this together for the requests that write a module. Their images
are in the order of `Location.le`, which compares names and not texts (`Location.le_iff_lex`).
-/

namespace SceneScript

open Text

/-! ## Images in data URLs -/

namespace Text

namespace Base64

theorem digitValue?_digit : ∀ n < 64, digitValue? (digit n) = some n := by
  decide

theorem digit_ne_pad : ∀ n < 64, digit n ≠ '=' := by
  decide

/-- Bytes are read back from their text, whatever their number. -/
theorem decode?_encode (bytes : List UInt8) : decode? (encode bytes) = some bytes := by
  fun_induction encode bytes with
  | case1 => rfl
  | case2 a n =>
    have ha := a.toNat_lt
    have hn : n = a.toNat * 16 := rfl
    have hbyte : (n / 64 * 64 + n % 64) / 16 = a.toNat := by omega
    rw [decode?, digitValue?_digit _ (by omega), digitValue?_digit _ (by omega)]
    simp only [Option.bind_eq_bind, Option.bind_some, hbyte, UInt8.ofNat_toNat, Option.pure_def]
  | case3 a b n =>
    have ha := a.toNat_lt
    have hb := b.toNat_lt
    have hn : n = (a.toNat * 256 + b.toNat) * 4 := rfl
    have hdigits : ((n / 4096 * 64 + n / 64 % 64) * 64 + n % 64) / 4 = a.toNat * 256 + b.toNat := by
      omega
    have hfirst : (a.toNat * 256 + b.toNat) / 256 = a.toNat := by omega
    have hsecond : (a.toNat * 256 + b.toNat) % 256 = b.toNat := by omega
    rw [decode?, digitValue?_digit _ (by omega), digitValue?_digit _ (by omega),
      digitValue?_digit _ (by omega)]
    · simp only [Option.bind_eq_bind, Option.bind_some, hdigits, hfirst, hsecond, UInt8.ofNat_toNat,
        Option.pure_def]
    · exact digit_ne_pad _ (by omega)
  | case4 a b c rest n ih =>
    have ha := a.toNat_lt
    have hb := b.toNat_lt
    have hc := c.toNat_lt
    have hn : n = (a.toNat * 256 + b.toNat) * 256 + c.toNat := rfl
    have hdigits : ((n / 262144 * 64 + n / 4096 % 64) * 64 + n / 64 % 64) * 64 + n % 64 = n := by
      omega
    have hfirst : n / 65536 = a.toNat := by omega
    have hsecond : n / 256 % 256 = b.toNat := by omega
    have hthird : n % 256 = c.toNat := by omega
    have hpad := digit_ne_pad (n % 64) (by omega)
    rw [decode?, digitValue?_digit _ (by omega), digitValue?_digit _ (by omega),
      digitValue?_digit _ (by omega), digitValue?_digit _ (by omega), ih]
    · simp only [Option.bind_eq_bind, Option.bind_some, hdigits, hfirst, hsecond, hthird,
        UInt8.ofNat_toNat, Option.pure_def]
    · exact fun _ h => absurd h hpad
    · exact fun h => absurd h hpad

end Base64

/-- What follows the last appearance of a character. -/
def afterLast (c : Char) (cs : List Char) : List Char :=
  (cs.reverse.takeWhile (· ≠ c)).reverse

theorem afterLast_append {c : Char} {back : List Char} (h : c ∉ back) (front : List Char) :
    afterLast c (front ++ c :: back) = back := by
  have hback : ∀ x ∈ back.reverse, decide (x ≠ c) = true := by
    intro x hx
    exact decide_eq_true fun e => h (e ▸ List.mem_reverse.1 hx)
  rw [afterLast, List.reverse_append, List.reverse_cons, List.append_assoc,
    List.takeWhile_append_of_pos hback]
  simp

end Text

/-- The bytes of an image stand behind the last comma of its data URL, even where the media type
holds a comma. -/
theorem Image.decode?_dataUrl (type : String) (bytes : ByteArray) :
    Base64.decode? (afterLast ',' (dataUrl type bytes).toList) = some bytes.data.toList := by
  have hcomma : ',' ∉ Base64.encode bytes.data.toList := fun h =>
    Base64.forall_mem_encode (P := (',' ≠ ·)) (by decide) (by decide) _ ',' h rfl
  have hurl : (dataUrl type bytes).toList =
      ("data:" ++ type ++ ";base64").toList ++ ',' :: Base64.encode bytes.data.toList := by
    show ("data:" ++ type ++ ";base64," ++ String.ofList _).toList = _
    simp [String.toList_append]
  rw [hurl, afterLast_append hcomma, Base64.decode?_encode]

/-! ## Calls of loaders -/

namespace Script

/-- Leaves out the spaces and line ends at the start of a text. -/
def skipSpaces (cs : List Char) : List Char :=
  cs.dropWhile fun c => c = ' ' || c = '\t' || isLineEnd c

theorem length_skipSpaces (cs : List Char) : (skipSpaces cs).length ≤ cs.length :=
  (List.dropWhile_suffix _).length_le

/-- Reads what follows the opening bracket of a list of literals: their values up to the closing
bracket, and what follows that. The last literal may have a comma behind it. -/
def elements? (cs : List Char) : Option (List (List Char) × List Char) :=
  match _hstart : skipSpaces cs with
  | [] => none
  | c :: rest =>
    if c = ']' then some ([], rest)
    else
      match _hvalue : literal? (c :: rest) with
      | none => none
      | some (value, after) =>
        match _hend : skipSpaces after with
        | [] => none
        | c :: rest =>
          if c = ',' then (elements? rest).map fun (values, after) => (value :: values, after)
          else if c = ']' then some ([value], rest)
          else none
termination_by cs.length
decreasing_by
  have hstart := length_skipSpaces cs
  have hend := length_skipSpaces after
  have hvalue := length_literal? _hvalue
  simp only [_hstart, _hend, List.length_cons] at hstart hend hvalue
  omega

/-- Reads an argument: a literal or a list of literals. -/
def argument? : List Char → Option (List (List Char) × List Char)
  | '[' :: rest => elements? rest
  | cs => (literal? cs).map fun (value, rest) => ([value], rest)

/-- Reads the start of a call of a loader: the kind of its textures, and what follows the opening
parenthesis. -/
def loader? (cs : List Char) : Option (TextureKind × List Char) :=
  ((cs.dropPrefix? "new THREE.TextureLoader().load(".toList).map (.flat, ·)).or
    ((cs.dropPrefix? "new THREE.CubeTextureLoader().load(".toList).map (.cube, ·))

/-- Reads a module that is one texture: its name, its kind and the literals in the call of its
loader. -/
def texture? (cs : List Char) : Option (List Char × TextureKind × List (List Char)) := do
  let cs ← cs.dropPrefix? "import * as THREE from \"three\";\n\n".toList
  let (name, cs) ← declaration? cs
  let (kind, cs) ← loader? cs
  let (values, cs) ← argument? cs
  if cs = ");\n".toList then some (name, kind, values) else none

theorem skipSpaces_append {front : List Char}
    (hfront : front.all (fun c => c = ' ' || c = '\t' || isLineEnd c) = true) (rest : List Char) :
    skipSpaces (front ++ rest) = skipSpaces rest :=
  List.dropWhile_append_of_pos (List.all_eq_true.1 hfront)

theorem skipSpaces_cons {c : Char} (hc : (c = ' ' || c = '\t' || isLineEnd c) = false)
    (rest : List Char) : skipSpaces (c :: rest) = c :: rest :=
  List.dropWhile_cons_of_neg (by simp [hc])

theorem elements?_of_close {cs rest : List Char} (hstart : skipSpaces cs = ']' :: rest) :
    elements? cs = some ([], rest) := by
  rw [elements?]
  split
  · rename_i hnil
    rw [hstart] at hnil
    cases hnil
  · rename_i c more hcons
    rw [hstart] at hcons
    cases hcons
    rfl

theorem elements?_of_comma {cs rest value after more : List Char} {c : Char}
    (hstart : skipSpaces cs = c :: rest) (hc : c ≠ ']')
    (hvalue : literal? (c :: rest) = some (value, after)) (hend : skipSpaces after = ',' :: more) :
    elements? cs = (elements? more).map fun result => (value :: result.1, result.2) := by
  rw [elements?]
  split
  · rename_i hnil
    rw [hstart] at hnil
    cases hnil
  rename_i c' rest' hcons
  rw [hstart] at hcons
  cases hcons
  rw [if_neg hc]
  split
  · rename_i hnone
    rw [hvalue] at hnone
    cases hnone
  rename_i value' after' hsome
  rw [hvalue] at hsome
  cases hsome
  split
  · rename_i hnil
    rw [hend] at hnil
    cases hnil
  rename_i c' rest' hcons
  rw [hend] at hcons
  cases hcons
  rfl

/-- A quoted text with a comma behind it is one more element. -/
theorem elements?_quote (s : String) (rest : List Char) :
    elements? ("\n    ".toList ++ ((quote s).toList ++ ',' :: rest)) =
      (elements? rest).map fun result => (s.toList :: result.1, result.2) := by
  have hvalue := literal?_quote s (',' :: rest)
  rw [quote_append] at hvalue ⊢
  refine elements?_of_comma ?_ (by decide) hvalue (skipSpaces_cons rfl rest)
  rw [skipSpaces_append (by decide), skipSpaces_cons rfl]

/-- A list of quoted texts, each with a comma behind it, is read up to its closing bracket. -/
theorem elements?_quotes (urls : List String) (rest : List Char) :
    elements? ((urls.flatMap fun url => "\n    ".toList ++ ((quote url).toList ++ [','])) ++
      '\n' :: ']' :: rest) = some (urls.map String.toList, rest) := by
  induction urls with
  | nil =>
    refine elements?_of_close ?_
    rw [List.flatMap_nil, List.nil_append]
    rfl
  | cons url urls ih =>
    rw [List.flatMap_cons, List.append_assoc, List.append_assoc, List.append_assoc,
      List.singleton_append, elements?_quote, ih, Option.map_some, List.map_cons]

end Script

namespace TextureLibrary

theorem ofCount?_eq_flat_iff (count : Nat) :
    TextureKind.ofCount? count = some .flat ↔ count = 1 := by
  unfold TextureKind.ofCount?
  split_ifs with hone hcube <;> simp [hone]

theorem ofCount?_eq_cube_iff (count : Nat) :
    TextureKind.ofCount? count = some .cube ↔ count = cubeFaces := by
  unfold TextureKind.ofCount?
  split_ifs with hone hcube
  · simp [hone, cubeFaces]
  · simp [hcube]
  · simp [hcube]

/-- The start of a call of a loader, up to its opening parenthesis. -/
def loaderStart : TextureKind → List Char
  | .flat => "new THREE.TextureLoader().load(".toList
  | .cube => "new THREE.CubeTextureLoader().load(".toList

theorem loader?_append (kind : TextureKind) (rest : List Char) :
    Script.loader? (loaderStart kind ++ rest) = some (kind, rest) := by
  have hcut (front : List Char) : (front ++ rest).dropPrefix? front = some rest :=
    List.dropPrefix?_append_of_beq rest (beq_self_eq_true front)
  cases kind with
  | flat =>
    unfold Script.loader? loaderStart
    rw [hcut, Option.map_some, Option.some_or]
  | cube =>
    -- the two calls differ at the first letter of the name of the loader
    have hflat : (loaderStart .cube ++ rest).dropPrefix? "new THREE.TextureLoader().load(".toList =
        none := rfl
    unfold loaderStart at hflat
    unfold Script.loader? loaderStart
    rw [hflat, hcut, Option.map_none, Option.none_or, Option.map_some]

theorem intercalate_commas {qs : List (List Char)} (hne : qs ≠ []) :
    "\n    ".toList ++ (",\n    ".toList.intercalate qs ++ [',']) =
      qs.flatMap fun q => "\n    ".toList ++ (q ++ [',']) := by
  induction qs with
  | nil => exact absurd rfl hne
  | cons q qs ih =>
    cases qs with
    | nil => simp
    | cons r qs =>
      rw [List.flatMap_cons, ← ih (List.cons_ne_nil r qs)]
      simp

/-- The call of a loader is its start and an argument that holds the quoted texts. -/
theorem exists_argument {urls : List String} {kind : TextureKind}
    (hcount : TextureKind.ofCount? urls.length = some kind) :
    ∃ argument, (loadCall kind (urls.map quote)).toList = loaderStart kind ++ (argument ++ [')']) ∧
      ∀ rest, Script.argument? (argument ++ ')' :: rest) =
        some (urls.map String.toList, ')' :: rest) := by
  cases kind with
  | flat =>
    obtain ⟨url, rfl⟩ := List.length_eq_one_iff.1 ((ofCount?_eq_flat_iff _).1 hcount)
    refine ⟨(quote url).toList, ?_, fun rest => ?_⟩
    · show ("new THREE.TextureLoader().load(" ++ ("" ++ quote url) ++ ")").toList = _
      rw [String.toList_append, String.toList_append, String.empty_append, List.append_assoc]
      rfl
    · have hvalue := Script.literal?_quote url (')' :: rest)
      rw [quote_append] at hvalue ⊢
      unfold Script.argument?
      simp [hvalue]
  | cube =>
    have hlength := (ofCount?_eq_cube_iff _).1 hcount
    have hne : urls.map (fun url => (quote url).toList) ≠ [] := by
      rintro hnil
      rw [List.map_eq_nil_iff.1 hnil] at hlength
      cases hlength
    refine ⟨'[' :: ((urls.flatMap fun url => "\n    ".toList ++ ((quote url).toList ++ [','])) ++
      ['\n', ']']), ?_, fun rest => ?_⟩
    · show ("new THREE.CubeTextureLoader().load([\n    " ++
        ",\n    ".intercalate (urls.map quote) ++ ",\n])").toList = _
      have hitems := intercalate_commas hne
      rw [List.flatMap_map] at hitems
      have hstart : "new THREE.CubeTextureLoader().load([\n    ".toList =
          loaderStart .cube ++ '[' :: "\n    ".toList := rfl
      have hend : ",\n])".toList = [','] ++ ['\n', ']', ')'] := rfl
      rw [← hitems, String.toList_append, String.toList_append, String.toList_intercalate,
        List.map_map, hstart, hend]
      simp only [List.append_assoc, List.cons_append, List.nil_append]
      rfl
    · have hvalues := Script.elements?_quotes urls (')' :: rest)
      unfold Script.argument?
      simpa using hvalues

theorem texture?_moduleText {urls : List String} {kind : TextureKind}
    (hcount : TextureKind.ofCount? urls.length = some kind) (name : ModuleName) :
    Script.texture? (moduleText name.text kind urls).toList =
      some (name.text.toList, kind, urls.map String.toList) := by
  have hblank : ' ' ∉ name.text.toList := name.not_mem_text (by decide) (by decide)
  obtain ⟨argument, hcall, hargument⟩ := exists_argument hcount
  have hstart : "import * as THREE from \"three\";\n\nexport const ".toList =
      "import * as THREE from \"three\";\n\n".toList ++ "export const ".toList := rfl
  have hparts : (moduleText name.text kind urls).toList =
      "import * as THREE from \"three\";\n\n".toList ++ ("export const ".toList ++
        (name.text.toList ++ (" = ".toList ++
          (loaderStart kind ++ (argument ++ ')' :: ";\n".toList))))) := by
    show ("import * as THREE from \"three\";\n\nexport const " ++ name.text ++ " = " ++
      loadCall kind (urls.map quote) ++ ";\n").toList = _
    rw [String.toList_append, String.toList_append, String.toList_append, String.toList_append,
      hstart, hcall]
    simp only [List.append_assoc, List.cons_append, List.nil_append]
  unfold Script.texture?
  rw [hparts, List.dropPrefix?_append_of_beq _ (beq_self_eq_true _), Option.bind_eq_bind,
    Option.bind_some, Script.declaration?_append hblank, Option.bind_eq_bind, Option.bind_some]
  dsimp only
  rw [loader?_append, Option.bind_eq_bind, Option.bind_some]
  dsimp only
  rw [hargument, Option.bind_eq_bind, Option.bind_some]
  exact if_pos rfl

end TextureLibrary

/-! ## Modules that are new -/

/-- Places are in the order of their names: the first difference decides, and not the texts. -/
theorem Location.le_iff_lex {a b : Location} :
    le a b = true ↔ a.names = b.names ∨ List.Lex (· < ·) a.names b.names := by
  have hnames (as bs : List String) :
      namesLe as bs = true ↔ as = bs ∨ List.Lex (· < ·) as bs := by
    induction as generalizing bs with
    | nil => cases bs <;> simp [namesLe]
    | cons x as ih =>
      cases bs with
      | nil => simp [namesLe]
      | cons y bs =>
        rw [namesLe_cons_iff, ih, List.cons_lex_cons_iff, List.cons.injEq]
        tauto
  exact hnames a.names b.names

namespace TextureLibrary

/-- Files that can be read have data URLs, from which they are read back. -/
theorem exists_urls {d : Disk} {ls : List Location}
    (h : ∀ l ∈ ls, ∃ bytes, d.readAt l = .ok bytes) :
    ∃ urls, ls.mapM (Image.locationDataUrl d) = .ok urls ∧
      List.Forall₂ (fun l value => ∃ bytes, d.readAt l = .ok bytes ∧
        Base64.decode? (afterLast ',' value) = some bytes.data.toList) ls
        (urls.map String.toList) := by
  induction ls with
  | nil => exact ⟨[], rfl, .nil⟩
  | cons l ls ih =>
    obtain ⟨⟨bytes, hbytes⟩, hrest⟩ := List.forall_mem_cons.1 h
    obtain ⟨urls, hurls, hvalues⟩ := ih hrest
    have hurl : Image.locationDataUrl d l = .ok (Image.dataUrl (Image.mediaType l.path) bytes) := by
      unfold Image.locationDataUrl
      rw [hbytes]
    refine ⟨_ :: urls, mapM_eq_ok_iff.2 (.cons hurl (mapM_eq_ok_iff.1 hurls)), ?_⟩
    exact .cons ⟨bytes, hbytes, Image.decode?_dataUrl _ bytes⟩ hvalues

/-- A request for one or six files that can be read and have no module yet. The module for it can be
read back: the loader that it calls tells the kind, and the call holds one literal for each file.
What follows the last comma of their values is the Base64 text of the exact contents of the files,
in the order of their places, name by name, and as often as they were asked for. The request gives
this module, unless its file cannot be written. -/
theorem texture_modules_read_back (t : TextureLibrary) (d : Disk) (files : List String)
    (ls : List Location) (hcount : files.length = 1 ∨ files.length = cubeFaces)
    (hplaces : files.mapM (resolveAsset d t.base) = .ok ls)
    (hread : ∀ l ∈ ls, ∃ bytes, d.readAt l = .ok bytes)
    (hmiss : t.cached.lookup (key (ls.mergeSort Location.le)) = none) :
    ∃ (kind : TextureKind) (sorted : List Location) (values : List (List Char)) (script : String),
      let name := ModuleName.texture t.size
      (kind = .flat ↔ files.length = 1) ∧ (kind = .cube ↔ files.length = cubeFaces) ∧
        sorted.Perm ls ∧
        sorted.Pairwise (fun a b => a.names = b.names ∨ List.Lex (· < ·) a.names b.names) ∧
        Script.texture? script.toList = some (name.text.toList, kind, values) ∧
        values.length = files.length ∧
        List.Forall₂ (fun l value => ∃ bytes, d.readAt l = .ok bytes ∧
          Base64.decode? (afterLast ',' value) = some bytes.data.toList) sorted values ∧
        (∀ d', d.write (name.path t.out) script.toUTF8 = .ok d' →
          (∃ t', t.add d files = .ok (⟨name, kind, true⟩, t', d')) ∧
            d'.readText (name.path t.out) = .ok script) ∧
        ∀ fault, d.write (name.path t.out) script.toUTF8 = .error fault →
          t.add d files = .error (.write (name.path t.out) fault) := by
  have hperm := List.mergeSort_perm ls Location.le
  have hlength := length_of_mapM hplaces
  obtain ⟨kind, hkind⟩ : ∃ kind, TextureKind.ofCount? files.length = some kind := by
    rcases hcount with hone | hcube
    · exact ⟨.flat, (ofCount?_eq_flat_iff _).2 hone⟩
    · exact ⟨.cube, (ofCount?_eq_cube_iff _).2 hcube⟩
  obtain ⟨urls, hurls, hvalues⟩ := exists_urls fun l hl => hread l (hperm.mem_iff.1 hl)
  have hurlsLength : urls.length = files.length := by
    rw [length_of_mapM hurls, hperm.length_eq, hlength]
  refine ⟨kind, _, urls.map String.toList, moduleText (ModuleName.texture t.size).text kind urls,
    ?_, ?_, hperm, ?_, texture?_moduleText (hurlsLength ▸ hkind) _, ?_, hvalues, ?_, ?_⟩
  · rw [← ofCount?_eq_flat_iff, hkind, Option.some.injEq]
  · rw [← ofCount?_eq_cube_iff, hkind, Option.some.injEq]
  · exact (List.pairwise_mergeSort Location.le_trans Location.le_total ls).imp
      Location.le_iff_lex.1
  · rw [List.length_map, hurlsLength]
  · intro d' hwrite
    exact ⟨⟨_, add_of_new hkind (places_of_mapM hplaces) hmiss hurls
      (writeGenerated_eq_ok.2 hwrite)⟩, Disk.readText_of_read (Disk.read_of_write hwrite)⟩
  · intro fault hwrite
    rw [add_of_miss hkind (places_of_mapM hplaces) hmiss hurls,
      writeGenerated_eq_error.2 ⟨fault, hwrite, rfl⟩]
    rfl

/-- Faces of a cube, among them one of which the text comes before those in the directory, an empty
one, and one whose extension holds a comma. -/
def skyDisk : Disk where
  cwd := .root
  nodes :=
    [(⟨["sky-up.png"]⟩, .file ⟨#[1, 2, 3, 4]⟩), (⟨["sky"]⟩, .directory),
      (⟨["sky", "east.png"]⟩, .file ⟨#[255]⟩), (⟨["sky", "down.png"]⟩, .file ⟨#[]⟩),
      (⟨["sky", "north.x,y"]⟩, .file ⟨#[0, 128]⟩), (⟨["out"]⟩, .directory)]

/-- The faces, of which one is named twice. -/
def skyFaces : List String :=
  ["sky-up.png", "sky/north.x,y", "sky/east.png", "sky/down.png", "sky/../sky/east.png",
    "./sky-up.png"]

/-- The places of the faces, as they are named. -/
def skyPlaces : List Location :=
  [⟨["sky-up.png"]⟩, ⟨["sky", "north.x,y"]⟩, ⟨["sky", "east.png"]⟩, ⟨["sky", "down.png"]⟩,
    ⟨["sky", "east.png"]⟩, ⟨["sky-up.png"]⟩]

/-- The faces in the directory come first, and those that are named twice are there twice. -/
theorem texture_modules_read_back_sky :
    skyFaces.length = cubeFaces ∧ skyFaces.mapM (resolveAsset skyDisk ⟨"/"⟩) = .ok skyPlaces ∧
      (∀ l ∈ skyPlaces, ∃ bytes, skyDisk.readAt l = .ok bytes) ∧
      ∃ t d script values,
        (new ⟨"/"⟩ ⟨"/out"⟩).add skyDisk skyFaces = .ok (⟨.texture 0, .cube, true⟩, t, d) ∧
        d.readText ⟨"/out/EXTRA_TEXTURE_0.js"⟩ = .ok script ∧
        Script.texture? script.toList = some ("EXTRA_TEXTURE_0".toList, .cube, values) ∧
        List.Forall₂ (fun value bytes => Base64.decode? (afterLast ',' value) = some bytes) values
          [[], [255], [255], [0, 128], [1, 2, 3, 4], [1, 2, 3, 4]] := by
  have hplaces : skyFaces.mapM (resolveAsset skyDisk ⟨"/"⟩) = .ok skyPlaces := by rfl
  have hread : ∀ l ∈ skyPlaces, ∃ bytes, skyDisk.readAt l = .ok bytes := by
    simp only [skyPlaces, List.forall_mem_cons]
    exact ⟨⟨_, rfl⟩, ⟨_, rfl⟩, ⟨_, rfl⟩, ⟨_, rfl⟩, ⟨_, rfl⟩, ⟨_, rfl⟩, List.forall_mem_nil _⟩
  obtain ⟨kind, sorted, values, script, -, hkind, hperm, hsorted, hscript, -, hvalues, hok, -⟩ :=
    texture_modules_read_back (new ⟨"/"⟩ ⟨"/out"⟩) skyDisk skyFaces skyPlaces (.inr rfl) hplaces
      hread rfl
  obtain rfl : kind = .cube := hkind.2 rfl
  -- the order of the places is one of its kind
  obtain rfl : sorted = [⟨["sky", "down.png"]⟩, ⟨["sky", "east.png"]⟩, ⟨["sky", "east.png"]⟩,
      ⟨["sky", "north.x,y"]⟩, ⟨["sky-up.png"]⟩, ⟨["sky-up.png"]⟩] :=
    List.Perm.eq_of_pairwise (fun _ _ _ _ => Location.le_antisymm)
      (hsorted.imp Location.le_iff_lex.2) (by decide) (hperm.trans (by decide))
  obtain ⟨⟨t, hadd⟩, htext⟩ := hok _ rfl
  refine ⟨rfl, hplaces, hread, t, _, script, values, hadd, htext, hscript, ?_⟩
  have hface {l : Location} {value : List Char} {contents : ByteArray}
      (hl : skyDisk.readAt l = .ok contents)
      (h : ∃ bytes, skyDisk.readAt l = .ok bytes ∧
        Base64.decode? (afterLast ',' value) = some bytes.data.toList) :
      Base64.decode? (afterLast ',' value) = some contents.data.toList := by
    obtain ⟨bytes, hbytes, hvalue⟩ := h
    rwa [Except.ok.inj (hl.symm.trans hbytes)]
  rcases hvalues with _ | ⟨h₁, _ | ⟨h₂, _ | ⟨h₃, _ | ⟨h₄, _ | ⟨h₅, _ | ⟨h₆, _ | _⟩⟩⟩⟩⟩⟩
  exact .cons (hface rfl h₁) (.cons (hface rfl h₂) (.cons (hface rfl h₃) (.cons (hface rfl h₄)
    (.cons (hface rfl h₅) (.cons (hface rfl h₆) .nil)))))

end TextureLibrary

end SceneScript
