import SceneScript.Proofs.Picks

/-!
# Serving the asks of a scene

The asks of a scene are served in order: each gets the module of its order, as picked from the disk
that it finds, or comes to no order (`Store.Serves`). The disk changes at the places of the modules
only, and each module holds its text in the end (`Serves.edits`, `Serves.read_of_made`).

Where nothing that the asks look up has been written on the way, all picks can be taken from the
disk that was found (`Shelf.Draws`, `Store.Serves.draws`), and such picks are determined by the asks
and that disk (`Shelf.Draws.eq`).
-/

namespace SceneScript

namespace Ask

/-- The order that an ask comes to: the text of a uniform is one if it names an image file. -/
def order? (base : Path) (d : Disk) : Ask → Option Order
  | .order o => some o
  | .image file => if Image.isImageFile d (base.join ⟨file⟩) then some (.texture [file]) else none

/-- All paths that an ask looks up. A text without the extension of an image is not looked up. -/
def lookups (base : Path) (d : Disk) : Ask → List Path
  | .order o => o.lookups base d
  | .image file =>
    if (Image.knownType? (base.join ⟨file⟩)).isSome then [base.join ⟨file⟩] else []

end Ask

/-! ## Orders one after the other -/

namespace Store

/-- A later store: nothing has been taken away, and the modules hold what they held. -/
structure Extends (out : Path) (s t : Store) : Prop where
  grows : s.disk.Grows t.disk
  modules : s.modules ⊆ t.modules
  read {name : ModuleName} {c : ByteArray} (hname : name ∈ s.modules)
    (hread : s.disk.read (name.path out) = .ok c) : t.disk.read (name.path out) = .ok c

variable {base out : Path} {s t u : Store} {o : Order} {name : ModuleName} {d : Disk}
  {W : Location → Prop} {asks more : List Ask} {picks others : List (Option Pick)}

theorem Extends.refl (out : Path) (s : Store) : s.Extends out s :=
  ⟨.refl _, fun _ h => h, fun _ h => h⟩

theorem Extends.trans (h : s.Extends out t) (h' : t.Extends out u) : s.Extends out u :=
  ⟨h.grows.trans h'.grows, fun _ hname => h'.modules (h.modules hname),
    fun hname hread => h'.read (h.modules hname) (h.read hname hread)⟩

theorem extends_deliver (h : s.Rooted base out) (hdeliver : s.deliver o = .ok (name, t)) :
    s.Extends out t := by
  obtain ⟨k, -, rfl, -, -, ⟨-, rfl⟩ | ⟨text, -, hwrite, hfresh, hmodules⟩⟩ :=
    deliver_eq_ok h hdeliver
  · exact .refl out t
  · refine ⟨Disk.write_grows hwrite, fun other hother => (hmodules other).2 (.inl hother),
      fun {other c} hother hread => ?_⟩
    have hne : other ≠ k.name := fun e => hfresh (e ▸ hother)
    exact ModuleName.read_path_of_write hne hread hwrite

/-- Asks that are served one after the other, with the picks for those that come to an order. -/
inductive Serves (base : Path) : Store → List Ask → List (Option Pick) → Store → Prop
  | nil (s : Store) : Serves base s [] [] s
  | skip {s u : Store} {a : Ask} {asks : List Ask} {picks : List (Option Pick)}
    (horder : a.order? base s.disk = none) (rest : Serves base s asks picks u) :
    Serves base s (a :: asks) (none :: picks) u
  | serve {s t u : Store} {a : Ask} {o : Order} {k : Pick} {asks : List Ask}
    {picks : List (Option Pick)} (horder : a.order? base s.disk = some o)
    (hpick : s.shelf.pick base s.disk o = .ok k) (hdeliver : s.deliver o = .ok (k.name, t))
    (rest : Serves base t asks picks u) : Serves base s (a :: asks) (some k :: picks) u

namespace Serves

theorem eq_of_nil (h : Serves base s [] picks u) : picks = [] ∧ u = s := by
  cases h
  exact ⟨rfl, rfl⟩

theorem length (h : Serves base s asks picks u) : picks.length = asks.length := by
  induction h with
  | nil => rfl
  | skip _ _ ih => simp [ih]
  | serve _ _ _ _ ih => simp [ih]

theorem append (h : Serves base s asks picks t) (h' : Serves base t more others u) :
    Serves base s (asks ++ more) (picks ++ others) u := by
  induction h with
  | nil => exact h'
  | skip horder _ ih => exact .skip horder (ih h')
  | serve horder hpick hdeliver _ ih => exact .serve horder hpick hdeliver (ih h')

theorem split (h : Serves base s (asks ++ more) (picks ++ others) u)
    (hlength : picks.length = asks.length) :
    ∃ t, Serves base s asks picks t ∧ Serves base t more others u := by
  induction asks generalizing s picks with
  | nil =>
    rw [List.eq_nil_of_length_eq_zero hlength] at h ⊢
    exact ⟨s, .nil s, h⟩
  | cons a asks ih =>
    obtain ⟨pick, picks, rfl⟩ := List.exists_cons_of_length_eq_add_one hlength
    cases h with
    | skip horder rest =>
      obtain ⟨t, hfirst, hrest⟩ := ih rest (Nat.succ.inj hlength)
      exact ⟨t, .skip horder hfirst, hrest⟩
    | serve horder hpick hdeliver rest =>
      obtain ⟨t, hfirst, hrest⟩ := ih rest (Nat.succ.inj hlength)
      exact ⟨t, .serve horder hpick hdeliver hfirst, hrest⟩

theorem keeps (h : Serves base s asks picks u) (hs : s.Rooted base out) : s.Extends out u := by
  induction h with
  | nil => exact .refl out _
  | skip _ _ ih => exact ih hs
  | serve _ _ hdeliver _ ih =>
    obtain ⟨-, -, -, ht, -⟩ := deliver_eq_ok hs hdeliver
    exact (extends_deliver hs hdeliver).trans (ih ht)

/-- The disk changes at most at the places of the modules. -/
theorem edits (h : Serves base s asks picks u) (hs : s.Rooted base out)
    (hW : ∀ name ∈ u.modules, ∀ l, u.disk.reach (name.path out) = .ok l → W l) :
    Disk.Edits W s.disk u.disk := by
  induction h with
  | nil => exact .refl W _
  | skip _ _ ih => exact ih hs hW
  | serve _ _ hdeliver rest ih =>
    obtain ⟨k, -, -, ht, -, ⟨-, rfl⟩ | ⟨text, -, hwrite, -, hmodules⟩⟩ := deliver_eq_ok hs hdeliver
    · exact ih hs hW
    · have hlater := rest.keeps ht
      refine Disk.Edits.trans ((Disk.Edits.refl W _).write hwrite fun l hl => ?_) (ih ht hW)
      exact hW _ (hlater.modules ((hmodules _).2 (.inr rfl))) l (hlater.grows.reach hl)

/-- A module that is made holds its text in the end. -/
theorem read_of_made {k : Pick} {text : String} (h : Serves base s asks picks u)
    (hs : s.Rooted base out) (hk : some k ∈ picks) (hmade : k.made = some text) :
    k.name ∈ u.modules ∧ u.disk.read (k.name.path out) = .ok text.toUTF8 := by
  induction h with
  | nil => cases hk
  | skip _ _ ih => exact ih hs ((List.mem_cons.1 hk).resolve_left nofun)
  | @serve s t u a o k' asks picks _ hpick hdeliver rest ih =>
    obtain ⟨k'', hk'', -, ht, -, hcases⟩ := deliver_eq_ok hs hdeliver
    obtain rfl := Except.ok.inj (hpick.symm.trans hk'')
    rcases List.mem_cons.1 hk with hfirst | hk
    · obtain rfl := Option.some.inj hfirst
      rcases hcases with ⟨hnone, -⟩ | ⟨text', hmade', hwrite, -, hmodules⟩
      · rw [hmade] at hnone
        cases hnone
      · obtain rfl := Option.some.inj (hmade.symm.trans hmade')
        have hlater := rest.keeps ht
        have hmem := (hmodules k.name).2 (.inr rfl)
        exact ⟨hlater.modules hmem, hlater.read hmem (Disk.read_of_write hwrite)⟩
    · exact ih ht hk

/-- A module that is new in the end has been made. -/
theorem exists_made (h : Serves base s asks picks u) (hs : s.Rooted base out)
    (hname : name ∈ u.modules) (hold : name ∉ s.modules) :
    ∃ k text, some k ∈ picks ∧ k.made = some text ∧ k.name = name := by
  induction h with
  | nil => exact absurd hname hold
  | skip _ _ ih =>
    obtain ⟨k, text, hk, hrest⟩ := ih hs hname hold
    exact ⟨k, text, List.mem_cons_of_mem _ hk, hrest⟩
  | @serve s t u a o k' asks picks _ hpick hdeliver rest ih =>
    obtain ⟨k'', hk'', -, ht, -, hcases⟩ := deliver_eq_ok hs hdeliver
    obtain rfl := Except.ok.inj (hpick.symm.trans hk'')
    by_cases hnew : name ∈ t.modules
    · rcases hcases with ⟨-, rfl⟩ | ⟨text, hmade, -, -, hmodules⟩
      · exact absurd hnew hold
      · exact ⟨k', text, List.mem_cons_self, hmade,
          (((hmodules name).1 hnew).resolve_left hold).symm⟩
    · obtain ⟨k, text, hk, hrest⟩ := ih ht hname hnew
      exact ⟨k, text, List.mem_cons_of_mem _ hk, hrest⟩

end Serves

end Store

/-! ## Picks from the disk that was found -/

namespace Disk.Edits

variable {W : Location → Prop} {d e : Disk}

/-- A probe for an image file cannot tell the disks apart if it finds no written file. -/
theorem isImageFile_eq (h : Edits W d e) {p : Path}
    (hp : (Image.knownType? p).isSome = true → ∀ l, e.locate p = .ok l → ¬ W l) :
    Image.isImageFile e p = Image.isImageFile d p := by
  unfold Image.isImageFile
  cases hknown : (Image.knownType? p).isSome with
  | false => rfl
  | true =>
    rw [Bool.true_and, Bool.true_and, Bool.eq_iff_iff]
    refine ⟨fun he => ?_, h.grows.isFile⟩
    obtain ⟨l, -, hreach, -⟩ := isFile_iff.1 he
    have hl := locate_of_reach hreach
    rwa [(h.sameAt hl (hp hknown l hl)).isFile] at he

theorem order?_eq (h : Edits W d e) {base : Path} {a : Ask}
    (ha : ∀ p ∈ a.lookups base d, ∀ l, e.locate p = .ok l → ¬ W l) :
    a.order? base e = a.order? base d := by
  cases a with
  | order o => rfl
  | image file =>
    have himage := h.isImageFile_eq (p := base.join ⟨file⟩) fun hknown l hl =>
      ha _ (by simp [Ask.lookups, hknown]) l hl
    simp only [Ask.order?, himage]

/-- An ask that is served gets the same pick from both disks if it finds no written file. -/
theorem pick_iff (h : Edits W d e) {base : Path} {a : Ask} {o : Order} {c : Shelf} {k : Pick}
    (horder : a.order? base d = some o)
    (ha : ∀ p ∈ a.lookups base d, ∀ l, e.locate p = .ok l → ¬ W l) :
    c.pick base e o = .ok k ↔ c.pick base d o = .ok k := by
  refine Shelf.pick_eq_ok_iff h.grows fun p hp l hl => h.sameAt hl (ha p ?_ l hl)
  cases a with
  | order o' =>
    cases horder
    exact hp
  | image file =>
    simp only [Ask.order?, Image.isImageFile, Bool.and_eq_true, Option.ite_none_right_eq_some,
      Option.some.injEq] at horder
    obtain ⟨⟨hknown, -⟩, rfl⟩ := horder
    simpa [Ask.lookups, hknown, Order.lookups, Order.paths, Order.images] using hp

end Disk.Edits

namespace Shelf

/-- The picks for asks when all files are taken from one disk. -/
inductive Draws (base : Path) (d : Disk) : Shelf → List Ask → List (Option Pick) → Shelf → Prop
  | nil (c : Shelf) : Draws base d c [] [] c
  | skip {c c' : Shelf} {a : Ask} {asks : List Ask} {picks : List (Option Pick)}
    (horder : a.order? base d = none) (rest : Draws base d c asks picks c') :
    Draws base d c (a :: asks) (none :: picks) c'
  | draw {c c' : Shelf} {a : Ask} {o : Order} {k : Pick} {asks : List Ask}
    {picks : List (Option Pick)} (horder : a.order? base d = some o)
    (hpick : c.pick base d o = .ok k) (rest : Draws base d k.shelf asks picks c') :
    Draws base d c (a :: asks) (some k :: picks) c'

/-- The picks are determined. -/
theorem Draws.eq {base : Path} {d : Disk} {c c₁ c₂ : Shelf} {asks : List Ask}
    {picks₁ picks₂ : List (Option Pick)} (h₁ : Draws base d c asks picks₁ c₁)
    (h₂ : Draws base d c asks picks₂ c₂) : picks₁ = picks₂ ∧ c₁ = c₂ := by
  induction h₁ generalizing picks₂ with
  | nil =>
    cases h₂
    exact ⟨rfl, rfl⟩
  | skip horder _ ih =>
    cases h₂ with
    | skip _ rest =>
      obtain ⟨rfl, hc⟩ := ih rest
      exact ⟨rfl, hc⟩
    | draw horder' =>
      rw [horder] at horder'
      cases horder'
  | draw horder hpick _ ih =>
    cases h₂ with
    | skip horder' =>
      rw [horder] at horder'
      cases horder'
    | draw horder' hpick' rest =>
      obtain rfl := Option.some.inj (horder.symm.trans horder')
      obtain rfl := Except.ok.inj (hpick.symm.trans hpick')
      obtain ⟨rfl, hc⟩ := ih rest
      exact ⟨rfl, hc⟩

end Shelf

/-- If no ask finds a written file, all picks can be taken from the disk before. -/
theorem Store.Serves.draws {base out : Path} {s u : Store} {d : Disk} {W : Location → Prop}
    {asks : List Ask} {picks : List (Option Pick)} (h : Serves base s asks picks u)
    (hs : s.Rooted base out) (hedits : Disk.Edits W d s.disk)
    (hW : ∀ name ∈ u.modules, ∀ l, u.disk.reach (name.path out) = .ok l → W l)
    (hclear : ∀ a ∈ asks, ∀ p ∈ a.lookups base d, ∀ l, u.disk.locate p = .ok l → ¬ W l) :
    Shelf.Draws base d s.shelf asks picks u.shelf := by
  induction h with
  | nil => exact .nil _
  | skip horder rest ih =>
    obtain ⟨ha, hclear⟩ := List.forall_mem_cons.1 hclear
    have hgrows := (rest.keeps hs).grows
    rw [hedits.order?_eq fun p hp l hl => ha p hp l (hgrows.locate hl)] at horder
    exact .skip horder (ih hs hedits hW hclear)
  | serve horder hpick hdeliver rest ih =>
    obtain ⟨ha, hclear⟩ := List.forall_mem_cons.1 hclear
    have hserves := Serves.serve horder hpick hdeliver (.nil _)
    obtain ⟨k', hk', -, ht, hshelf, -⟩ := deliver_eq_ok hs hdeliver
    obtain rfl := Except.ok.inj (hpick.symm.trans hk')
    have hgrows := (hserves.keeps hs).grows.trans (rest.keeps ht).grows
    have ha' := fun p hp l hl => ha p hp l (hgrows.locate hl)
    rw [hedits.order?_eq ha'] at horder
    rw [hedits.pick_iff horder ha'] at hpick
    have hedits' := hedits.trans <| hserves.edits hs fun name hname l hl =>
      hW name ((rest.keeps ht).modules hname) l ((rest.keeps ht).grows.reach hl)
    exact .draw horder hpick (hshelf ▸ ih ht hedits' hW hclear)

end SceneScript
