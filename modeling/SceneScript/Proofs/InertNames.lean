import SceneScript.Proofs.Failures
import SceneScript.Proofs.NamePlaces
import SceneScript.Proofs.ScriptTokens
import SceneScript.Proofs.TwoPass

/-!
# What names can do

In code a name is an identifier, which is one word, or a quoted text, which is one literal
(`Script.isName_identifier`, `Script.token?_quote`). Neither holds a line feed, so the lines for an
object or a light are the same number for all names, but for the comments, which show the name as it
is (`Form.count_lines`).

`names_in_places` puts this together. A comment keeps its name if and only if the name holds no line
end, and the path of a track, which stands between single quotes as it is, reads back if and only if
all characters of the track stand for themselves. Other names leave their places
(`names_break_out`).
-/

namespace SceneScript

/-! ## Reading comments -/

namespace Script

/-- Reads a comment at the start of a text: what stands behind the slashes, and the text from the
end of the line on. -/
def comment? : List Char → Option (List Char × List Char)
  | '/' :: '/' :: rest =>
    some (rest.takeWhile fun c => !isLineEnd c, rest.dropWhile fun c => !isLineEnd c)
  | _ => none

/-- A comment is read whole if and only if no line ends in it. -/
theorem comment?_iff (text rest : List Char) :
    comment? ('/' :: '/' :: (text ++ '\n' :: rest)) = some (text, '\n' :: rest) ↔
      ∀ c ∈ text, isLineEnd c = false := by
  rw [comment?, Option.some_inj, Prod.mk.injEq]
  constructor
  · rintro ⟨htake, -⟩ c hc
    have hall := List.all_eq_true.1 List.all_takeWhile c (htake.symm ▸ hc)
    rwa [Bool.not_eq_true'] at hall
  · intro htext
    have hcut : Text.CutsFront (fun c => !isLineEnd c) (text ++ '\n' :: rest) text
        ('\n' :: rest) := by
      refine ⟨rfl, fun c hc => by rw [htext c hc, Bool.not_false], fun c hc => ?_⟩
      cases Option.some.inj hc
      rfl
    exact hcut.unique

end Script

/-! ## Line feeds -/

theorem Place.count_fill (name : String) (part : Place) :
    (part.fill name).toList.count '\n' = (part.fill "").toList.count '\n' := by
  have hidentifier (name : String) : (Text.identifier name).toList.count '\n' = 0 :=
    List.count_eq_zero.2 fun h => absurd ((Script.isName_identifier name).isWordChar h) (by decide)
  have hquote (name : String) : (Text.quote name).toList.count '\n' = 0 :=
    List.count_eq_zero.2 fun h => absurd (Text.le_of_mem_quote h) (by decide)
  cases part with
  | text s => rfl
  | identifier => rw [fill, fill, hidentifier, hidentifier]
  | quoted => rw [fill, fill, hquote, hquote]

/-- The line feeds in code do not depend on the name. -/
theorem Place.count_fillAll (name : String) (parts : List Place) :
    (fillAll name parts).toList.count '\n' = (fillAll "" parts).toList.count '\n' := by
  induction parts with
  | nil => rfl
  | cons part parts ih =>
    have hcons (name : String) :
        fillAll name (part :: parts) = part.fill name ++ fillAll name parts :=
      String.join_cons
    rw [hcons, hcons, String.toList_append, String.toList_append, List.count_append,
      List.count_append, count_fill, ih]

/-- A comment has those of the name besides its own. -/
theorem Form.count_fill (name : String) (form : Form) :
    (form.fill name).toList.count '\n' =
      (form.fill "").toList.count '\n' + form.shown?.toList.length * name.toList.count '\n' := by
  cases form with
  | comment rest =>
    simp only [fill, shown?, String.toList_append, List.count_append, String.toList_empty,
      List.count_nil, Option.toList_some, List.length_singleton]
    omega
  | code parts =>
    rw [fill, fill, Place.count_fillAll, shown?, Option.toList_none, List.length_nil, Nat.zero_mul,
      Nat.add_zero]

/-- The lines of several forms, filled with a name. -/
def Form.lines (name : String) (forms : List Form) : String :=
  String.join (forms.map fun form => form.fill name ++ "\n")

theorem Form.count_lines (name : String) (forms : List Form) :
    (lines name forms).toList.count '\n' = (lines "" forms).toList.count '\n' +
      (forms.filterMap shown?).length * name.toList.count '\n' := by
  induction forms with
  | nil => simp [lines]
  | cons form forms ih =>
    have hcons (name : String) :
        lines name (form :: forms) = form.fill name ++ "\n" ++ lines name forms :=
      String.join_cons
    have hlength : ((form :: forms).filterMap shown?).length =
        form.shown?.toList.length + (forms.filterMap shown?).length := by
      cases form with
      | comment rest => exact Nat.add_comm _ 1
      | code parts => exact (Nat.zero_add _).symm
    rw [hcons, hcons, hlength]
    simp only [String.toList_append, List.count_append, ih, count_fill name form, Nat.add_mul]
    omega

/-- The text of statements with the code of forms. -/
theorem Form.textOf_eq_lines {name : String} {forms : List Form} {ss : List Statement}
    (h : ss.map Statement.code = forms.map (Form.fill name)) :
    Buffer.textOf (ss.map .statement) = lines name forms := by
  have htext : (ss.map Piece.statement).map Piece.text =
      (ss.map Statement.code).map (· ++ "\n") := by
    simp only [List.map_map]
    rfl
  rw [Buffer.textOf, htext, h, lines, List.map_map]
  rfl

/-! ## Names in their places -/

namespace Emit

/-- Emissions, one for each name, that succeed and write the same lines for all names, but for the
places of the name, with the given comments. -/
def ShowsInPlaces (comments : List String) (m : String → Emit Unit) (s : Session) : Prop :=
  ∃ (w : Trace) (lines : Nat) (t : String → Session),
    w.comments = comments ∧ (∀ n n', (t n).Kin (t n')) ∧
    ∀ n, ∃ ss : List Statement, (m n).run s = .ok () (t n) ∧
      ss.map Statement.code = w.forms.map (Form.fill n) ∧
      (t n).buffer = s.buffer.append (ss.map .statement) ∧ (t n).inserts = w.ask n s.inserts ∧
      (Buffer.textOf (ss.map .statement)).toList.count '\n' =
        lines + comments.length * n.toList.count '\n'

/-- What is inert fails for all names or shows them in their places. -/
theorem Inert.shows {comments : List String} {m : String → Emit Unit} (h : Inert comments m)
    (s : Session) : (∀ n, ∃ e t, (m n).run s = .error e t) ∨ ShowsInPlaces comments m s := by
  rcases h (fun _ => s) (fun _ _ => ⟨rfl, rfl, rfl, rfl, rfl⟩) with
    hfails | ⟨_, w, t, rfl, ht, hrun⟩
  · exact .inl hfails
  · refine .inr ⟨w, (Form.lines "" w.forms).toList.count '\n', t, rfl, ht, fun n => ?_⟩
    obtain ⟨hn, ⟨ss, hss, hbuffer⟩, hinserts⟩ := hrun n
    refine ⟨ss, hn, hss, hbuffer, hinserts, ?_⟩
    rw [Form.textOf_eq_lines hss]
    exact Form.count_lines n w.forms

/-- The comments for objects and lights keep a name if and only if no line ends in it. -/
theorem comment?_fill_iff {kind : String} (hkind : kind ∈ [" object", " animations", " light"])
    (name : String) (rest : List Char) :
    Script.comment? (((Form.comment kind).fill name ++ "\n").toList ++ rest) =
        some ((" " ++ (name ++ kind)).toList, '\n' :: rest) ↔
      ∀ c ∈ name.toList, Script.isLineEnd c = false := by
  have hline : ∀ c ∈ kind.toList, Script.isLineEnd c = false := by
    have hkinds : [" object", " animations", " light"].all (fun kind =>
        kind.toList.all fun c => !Script.isLineEnd c) = true := by decide +kernel
    intro c hc
    have hc := List.all_eq_true.1 (List.all_eq_true.1 hkinds kind hkind) c hc
    rwa [Bool.not_eq_true'] at hc
  have htext : ((Form.comment kind).fill name ++ "\n").toList ++ rest =
      '/' :: '/' :: ((" " ++ (name ++ kind)).toList ++ '\n' :: rest) := by
    simp [Form.fill]
  rw [htext, Script.comment?_iff]
  simp only [String.toList_append, List.forall_mem_append]
  exact ⟨fun h => h.2.1, fun h => ⟨List.forall_mem_singleton.2 rfl, h, hline⟩⟩

/-- The path of a track reads back if and only if all characters of the track stand for
themselves. -/
theorem track_literal (object track : String) (args : List Value) : ∃ before after,
    (Statement.track object track args).code.toList =
      before ++ '\'' :: ('.' :: track.toList ++ '\'' :: after) ∧
    (Script.string? ('\'' :: ('.' :: track.toList ++ '\'' :: after)) =
        some ('.' :: track.toList, after) ↔
      ∀ c ∈ track.toList, Script.isPlain '\'' c = true) := by
  have hcode : ∃ front back : String,
      (Statement.track object track args).code = front ++ " + '." ++ track ++ "', " ++ back := by
    refine ⟨"mixer.addKeyframeTrack(new THREE." ++ trackFunction track ++ "(" ++ uuidVar object,
      Value.positionalText args ++ "));", ?_⟩
    rw [← String.append_assoc]
    rfl
  obtain ⟨front, back, hcode⟩ := hcode
  have hopen : " + '.".toList = " + ".toList ++ ['\'', '.'] := rfl
  have hclose : "', ".toList = '\'' :: ", ".toList := rfl
  refine ⟨front.toList ++ " + ".toList, ", ".toList ++ back.toList, ?_, ?_⟩
  · rw [hcode, String.toList_append, String.toList_append, String.toList_append,
      String.toList_append, hopen, hclose]
    generalize " + ".toList = plus
    generalize ", ".toList = comma
    simp only [List.append_assoc, List.cons_append, List.nil_append]
  · rw [Script.string?_single_iff, List.forall_mem_cons]
    exact and_iff_right (by decide)

/-- An object is emitted for all names or for none, and what is written for it depends on its name
only in the places of the name, as for a light. There the name is one word or one literal, or it
stands in a comment, which keeps it exactly if no line ends in it. The path of a track reads back
exactly if all characters of the track stand for themselves. -/
theorem names_in_places (node : Object) (lamp : Light) (parent : String) (s : Session) :
    ((∀ name, ∃ e t, (object name parent node).run s = .error e t) ∨
      ShowsInPlaces (blockComments node.geometry node.animations)
        (fun name => object name parent node) s) ∧
    ShowsInPlaces [" light"] (fun name => light name parent lamp) s ∧
    -- What stands in the places for code
    (∀ (name : String) (rest : List Char), Script.endsWord rest = true →
      Script.token? ((Text.identifier name).toList ++ rest) =
        some (.word (Text.identifier name).toList, rest)) ∧
    (∀ (name : String) (rest : List Char),
      Script.token? ((Text.quote name).toList ++ rest) = some (.text name.toList, rest)) ∧
    -- What stands there as it is
    (∀ (name : String) (rest : List Char), ∀ kind ∈ [" object", " animations", " light"],
      (Script.comment? (((Form.comment kind).fill name ++ "\n").toList ++ rest) =
          some ((" " ++ (name ++ kind)).toList, '\n' :: rest) ↔
        ∀ c ∈ name.toList, Script.isLineEnd c = false)) ∧
    (∀ (object track : String) (args : List Value), ∃ before after,
      (Statement.track object track args).code.toList =
        before ++ '\'' :: ('.' :: track.toList ++ '\'' :: after) ∧
      (Script.string? ('\'' :: ('.' :: track.toList ++ '\'' :: after)) =
          some ('.' :: track.toList, after) ↔
        ∀ c ∈ track.toList, Script.isPlain '\'' c = true)) := by
  refine ⟨?_, ?_, fun name rest hrest => ?_, fun name rest => ?_, fun name rest kind hkind => ?_,
    fun object track args => ?_⟩
  · exact (Inert.object .self (.const parent) node).shows s
  · refine ((Inert.light .self (.const parent) lamp).shows s).resolve_left fun hfails => ?_
    obtain ⟨e, t, herror⟩ := hfails ""
    exact statements_ne_error _ _ _ _ herror
  · exact (Script.isName_identifier name).token? hrest
  · exact Script.token?_quote name rest
  · exact comment?_fill_iff hkind name rest
  · exact track_literal object track args

/-- An object with one track, whose name holds a quote. -/
def quotedTrack : Object :=
  ⟨some (.call "BoxGeometry" (.positional [])), none, [("it's", [])], []⟩

/-- A line feed in the name of an object ends its comment, and a quote in the name of a track ends
its path. What follows is read as code. -/
theorem names_break_out : ∃ t,
    (object "a\nb" "scene" quotedTrack).run (.new ⟨"/"⟩ ⟨"/out"⟩ .empty) = .ok () t ∧
    (∃ rest, t.buffer.finish "" = "// a\nb object\n" ++ rest ∧
      Script.comment? ("// a\nb object\n" ++ rest).toList =
        some (" a".toList, ("\nb object\n" ++ rest).toList)) ∧
    ∃ front rest, t.buffer.finish "" = front ++ "'.it's'" ++ rest ∧
      Script.string? ("'.it's'" ++ rest).toList = some (".it".toList, ("s'" ++ rest).toList) := by
  have hrun : ∃ t ps,
      (object "a\nb" "scene" quotedTrack).run (.new ⟨"/"⟩ ⟨"/out"⟩ .empty) = .ok () t ∧
      t.buffer = ⟨.statement (.comment ("a\nb" ++ " object")) :: (ps ++
        [.statement (.track (Text.identifier "a\nb") "it's" []), .statement .blank]), [], false⟩ :=
    ⟨_, [_, _, _, _, _, _, _, _], rfl, rfl⟩
  obtain ⟨t, ps, ht, hbuffer⟩ := hrun
  have htext : t.buffer.finish "" = (Statement.comment ("a\nb" ++ " object")).text ++
      (Buffer.textOf ps ++
        ((Statement.track (Text.identifier "a\nb") "it's" []).text ++ "\n")) := by
    rw [hbuffer, Buffer.finish, Buffer.textOf_cons, Buffer.textOf_append, Buffer.textOf_cons,
      Buffer.textOf_singleton, String.append_empty]
    exact String.append_empty
  have hcomment : (Statement.comment ("a\nb" ++ " object")).text = "// a\nb object\n" := by
    decide +kernel
  have htrack : (Statement.track (Text.identifier "a\nb") "it's" []).text =
      "mixer.addKeyframeTrack(new THREE.VectorKeyframeTrack(a_b_uuid + " ++ "'.it's'" ++
        ", ));\n" := by
    decide +kernel
  have hread (rest : String) : Script.comment? ("// a\nb object\n" ++ rest).toList =
      some (" a".toList, ("\nb object\n" ++ rest).toList) := by
    rw [String.toList_append, String.toList_append]
    rfl
  rw [hcomment, htrack] at htext
  refine ⟨t, ht, ⟨_, htext, hread _⟩, "// a\nb object\n" ++ (Buffer.textOf ps ++
    "mixer.addKeyframeTrack(new THREE.VectorKeyframeTrack(a_b_uuid + "), ", ));\n" ++ "\n", ?_, ?_⟩
  · rw [htext]
    simp only [String.append_assoc]
  · have hstring := (Script.string?_single_iff ".it".toList ("s'" ++ (", ));\n" ++ "\n")).toList).2
      (List.all_eq_true.1 (by decide +kernel))
    rw [← hstring, String.toList_append, String.toList_append]
    rfl

end Emit

end SceneScript
