import StackScript.Proofs.Command.Walk

/-! # What writing a file changes

A file is written in a directory that is made if need be. It is the file to which its name leads,
through links and whatever further names it has. Nothing else changes, apart from the directories
that were missing on the way.
-/

namespace StackScript

/-- The path along the first names. -/
def Path.front (p : Path) (count : Nat) : Path := { p with names := p.names.take count }

namespace FileTree

/-- What stands at the place stays there. If nothing does and the way along the path leads there,
there may be a directory afterwards. -/
def Keeps (before after : FileTree) (here : List Text) (way : Path) (place : List Text) : Prop :=
  after.entry? place = before.entry? place ∨
    before.entry? place = none ∧ after.entry? place = some .directory ∧
      ∃ count, after.locate here (way.front count) = .ok place

/-- Nothing changes but for new directories on the way along the path. -/
structure Grows (before after : FileTree) (here : List Text) (way : Path) : Prop where
  keeps : ∀ place, before.Keeps after here way place
  barred : after.barred = before.barred

/-- Nothing but a file stands at the place, if anything does, and the file, or else the directory
of the place, grants to be written. -/
def IsWritable (tree : FileTree) (place : List Text) : Prop :=
  (∃ bytes, tree.entry? place = some (.file bytes)) ∧ tree.grants .write place = true ∨
    tree.entry? place = none ∧ tree.grants .write place.dropLast = true

/-- The file at `place` is created or overwritten, under a name in the directory at `inside`, and
nothing else changes but for new directories on the way to it. -/
structure Writes (before after : FileTree) (here : List Text) (directory : Path) (name : Text)
    (inside place : List Text) (bytes : List UInt8) : Prop where
  directory_located : after.locate here directory = .ok inside
  directory_stands : after.entry? inside = some .directory
  located : after.locate here (directory.child name) = .ok place
  /-- Only a link leads from its directory to another place. -/
  place_eq : place = inside ++ [name] ∨
    ∃ target, before.entry? (inside ++ [name]) = some (.link target)
  /-- There was a file or nothing. -/
  writable : before.entry? (before.home place) = none ∨
    ∃ old, before.entry? (before.home place) = some (.file old)
  written : after.entry? (before.home place) = some (.file bytes)
  others : ∀ other ≠ before.home place, before.Keeps after here directory other
  barred : after.barred = before.barred

variable {tree before between after : FileTree} {here names place other : List Text} {p way : Path}
  {entry : Entry} {links : Nat}

theorem entry?_set_self (hplace : place ≠ []) :
    entry? (tree.set place entry) place = some entry := by
  unfold entry? set
  rw [if_neg (by simpa using hplace), List.find?_cons_of_pos (by simp)]
  rfl

theorem entry?_set_ne (hother : other ≠ place) :
    entry? (tree.set place entry) other = tree.entry? other := by
  unfold entry? set
  rw [List.find?_cons_of_neg (by simpa using Ne.symm hother), List.find?_filter]
  congr 3
  funext e
  by_cases he : e.1 = other <;> simp_all

theorem ne_nil_of_not_directory (hplace : tree.entry? place ≠ some .directory) : place ≠ [] := by
  rintro rfl
  exact hplace rfl

/-! ## What a change sustains -/

/-- Directories and links are as before, and no link is new. -/
structure Sustains (before after : FileTree) : Prop where
  directory : ∀ place, before.entry? place = some .directory → after.entry? place = some .directory
  link : ∀ place target,
    after.entry? place = some (.link target) ↔ before.entry? place = some (.link target)
  barred : after.barred = before.barred

namespace Sustains

theorem enter (h : before.Sustains after) (henter : before.enter place = .ok ()) :
    after.enter place = .ok () := by
  rw [enter_eq_ok_iff] at henter ⊢
  refine ⟨h.directory _ henter.1, ?_⟩
  rw [grants, h.barred]
  exact henter.2

/-- Names still lead to where they led. -/
theorem leads (h : before.Sustains after) (hleads : before.Leads here names place links) :
    after.Leads here names place links := by
  induction hleads with
  | stay => exact .stay
  | up henter _ ih => exact .up (h.enter henter) ih
  | down henter hname hentry _ ih =>
      exact .down (h.enter henter) hname (fun target => mt (h.link _ target).mp (hentry target)) ih
  | link henter hname hentry _ ih =>
      exact .link (h.enter henter) hname ((h.link _ _).mpr hentry) ih

theorem locate (h : before.Sustains after) (hlocate : before.locate here p = .ok place) :
    after.locate here p = .ok place := by
  obtain ⟨links, hmost, hleads⟩ := locate_eq_ok_iff.mp hlocate
  exact locate_eq_ok_iff.mpr ⟨links, hmost, h.leads hleads⟩

theorem isDirect (h : before.Sustains after) (hdirect : before.IsDirect place) :
    after.IsDirect place :=
  ⟨fun count hcount => h.directory _ (hdirect.directories count hcount),
    fun target => mt (h.link _ target).mp (hdirect.not_link target), hdirect.up_notMem⟩

/-- Putting something that is neither in place of a link nor of a directory, and is no link. -/
theorem set (hdirectory : tree.entry? place ≠ some .directory)
    (hlink : ∀ target, tree.entry? place ≠ some (.link target))
    (hentry : ∀ target, entry ≠ .link target) : tree.Sustains (tree.set place entry) := by
  have hplace := ne_nil_of_not_directory hdirectory
  refine ⟨fun other hother => ?_, fun other target => ?_, rfl⟩
  · rw [entry?_set_ne (by rintro rfl; exact hdirectory hother), hother]
  · by_cases hsame : other = place
    · subst hsame
      rw [entry?_set_self hplace, Option.some.injEq]
      exact iff_of_false (hentry target) (hlink target)
    · rw [entry?_set_ne hsame]

end Sustains

namespace Grows

theorem refl (tree : FileTree) (here : List Text) (way : Path) : tree.Grows tree here way :=
  ⟨fun _ => .inl rfl, rfl⟩

theorem sustains (h : before.Grows after here way) : before.Sustains after := by
  refine ⟨fun place hplace => ?_, fun place target => ?_, h.barred⟩
  · rcases h.keeps place with hsame | ⟨hfree, -, -⟩
    · rwa [hsame]
    · rw [hplace] at hfree
      cases hfree
  · rcases h.keeps place with hsame | ⟨hfree, hmade, -⟩
    · rw [hsame]
    · rw [hfree, hmade]
      exact iff_of_false nofun nofun

theorem trans (hfirst : before.Grows between here way) (hsecond : between.Grows after here way) :
    before.Grows after here way := by
  refine ⟨fun place => ?_, hsecond.barred.trans hfirst.barred⟩
  rcases hfirst.keeps place with hsame | ⟨hfree, hmade, count, hlocate⟩
  · rw [Keeps, ← hsame]
    exact hsecond.keeps place
  · exact .inr ⟨hfree, hsecond.sustains.directory _ hmade, count,
      hsecond.sustains.locate hlocate⟩

/-- What is on the way to the enclosing directory is on the way. -/
theorem of_parent (h : before.Grows after here p.parent) : before.Grows after here p := by
  refine ⟨fun place => (h.keeps place).imp_right ?_, h.barred⟩
  rintro ⟨hfree, hmade, count, hlocate⟩
  refine ⟨hfree, hmade, min count (p.names.length - 1), ?_⟩
  rwa [Path.front, Path.parent, List.dropLast_eq_take, List.take_take] at hlocate

end Grows

/-- The bytes of a file are kept where they were. -/
theorem Grows.home_eq (h : before.Grows after here way) (place : List Text) :
    after.home place = before.home place := by
  rw [home, home]
  rcases h.keeps place with hsame | ⟨hfree, hmade, -⟩
  · rw [hsame]
  · rw [hfree, hmade]

/-! ## Making directories -/

theorem locateName_eq_ok (hlocate : tree.locateName here p = .ok place) :
    ∃ directory, tree.locate here p.parent = .ok directory ∧ tree.enter directory = .ok () ∧
      place = directory ++ [p.name] := by
  rw [locateName] at hlocate
  cases hparent : tree.locate here p.parent with
  | error refusal =>
      rw [hparent] at hlocate
      cases hlocate
  | ok directory =>
      rw [hparent] at hlocate
      cases henter : tree.enter directory with
      | error refusal => simp [bind, Except.bind, henter] at hlocate
      | ok =>
          simp only [bind, Except.bind, henter, pure, Except.pure, Except.ok.injEq] at hlocate
          exact ⟨directory, rfl, henter, hlocate.symm⟩

/-- Once there is a directory at the place of its last name, a path leads there. -/
theorem locate_of_locateName (hnames : p.names ≠ []) (hname : p.name ≠ Path.up)
    (hlocate : before.locateName here p = .ok place) (hsustains : before.Sustains after)
    (hentry : after.entry? place = some .directory) : after.locate here p = .ok place := by
  obtain ⟨directory, hparent, henter, rfl⟩ := locateName_eq_ok hlocate
  obtain ⟨links, hmost, hleads⟩ := locate_eq_ok_iff.mp (hsustains.locate hparent)
  have hlast : after.Leads directory [p.name] (directory ++ [p.name]) 0 := by
    refine .down (hsustains.enter henter) hname ?_ .stay
    rw [hentry]
    exact nofun
  have hconcat : p.names = p.parent.names ++ [p.name] := by
    rw [Path.parent, Path.name, List.getLastD_eq_getLast?, List.getLast?_eq_some_getLast hnames,
      Option.getD_some, List.dropLast_concat_getLast hnames]
  rw [locate_eq_ok_iff, hconcat]
  exact ⟨links, hmost, hleads.append hlast⟩

/-- A directory is only made where nothing stands, and then the path leads to it. -/
theorem makeDirectory_eq_ok (hmake : tree.makeDirectory here p = .ok after) :
    ∃ place, tree.entry? place = none ∧ after = tree.set place .directory ∧
      after.locate here p = .ok place := by
  rw [makeDirectory] at hmake
  split at hmake
  next => cases hmake
  next hnames =>
    cases hlocate : tree.locateName here p with
    | error refusal =>
        rw [hlocate] at hmake
        cases hmake
    | ok place =>
        simp only [hlocate, bind, Except.bind] at hmake
        split at hmake
        next => cases hmake
        next hfree =>
          split at hmake
          next =>
            simp only [pure, Except.pure, Except.ok.injEq] at hmake
            rw [Bool.or_eq_true, not_or, Option.not_isSome_iff_eq_none, beq_iff_eq] at hfree
            obtain ⟨hname, hfree⟩ := hfree
            have hplace : tree.entry? place ≠ some .directory := by
              rw [hfree]
              exact nofun
            have hsustains : tree.Sustains (tree.set place .directory) :=
              .set hplace (by rw [hfree]; exact nofun) nofun
            subst hmake
            exact ⟨place, hfree, rfl, locate_of_locateName (by simpa using hnames) hname hlocate
              hsustains (entry?_set_self (ne_nil_of_not_directory hplace))⟩
          next => cases hmake

theorem find_eq_ok (hfind : tree.find here p = .ok entry) :
    ∃ place, tree.locate here p = .ok place ∧ tree.entry? place = some entry := by
  rw [find] at hfind
  cases hlocate : tree.locate here p with
  | error refusal =>
      rw [hlocate] at hfind
      cases hfind
  | ok place =>
      simp only [hlocate, bind, Except.bind] at hfind
      split at hfind
      next found hfound =>
        cases hfind
        exact ⟨place, rfl, hfound⟩
      next => cases hfind

theorem requireDirectory_eq_ok (hrequire : tree.requireDirectory here p = .ok after) :
    tree.Grows after here p ∧
      ∃ place, after.locate here p = .ok place ∧ after.entry? place = some .directory := by
  rw [requireDirectory] at hrequire
  split at hrequire
  next made hmake =>
    cases hrequire
    obtain ⟨place, hfree, rfl, hlocate⟩ := makeDirectory_eq_ok hmake
    have hplace : place ≠ [] := ne_nil_of_not_directory (by rw [hfree]; exact nofun)
    refine ⟨⟨fun other => ?_, rfl⟩, place, hlocate, entry?_set_self hplace⟩
    by_cases hsame : other = place
    · subst hsame
      refine .inr ⟨hfree, entry?_set_self hplace, p.names.length, ?_⟩
      rwa [Path.front, List.take_length]
    · exact .inl (entry?_set_ne hsame)
  next =>
    split at hrequire
    next hfind =>
      cases hrequire
      exact ⟨.refl tree here p, find_eq_ok hfind⟩
    next => cases hrequire
    next => cases hrequire

/-- An attempt that goes on succeeds if it did so far and the further change does. -/
theorem Attempt.andThen_eq_iff {attempt : Attempt}
    {change : FileTree → Except (Refusal × Path) FileTree} :
    attempt.andThen change = { tree := after } ↔
      ∃ between, attempt = { tree := between } ∧ change between = .ok after := by
  obtain ⟨tree, refused⟩ := attempt
  cases refused with
  | some why => simp [andThen]
  | none =>
      simp only [andThen, Attempt.mk.injEq, and_true, exists_eq_left']
      cases change tree <;> simp

/-- Making a directory and those on the way makes nothing else, and the path then leads to a
directory. -/
theorem makeDirectories_eq {count : Nat}
    (hmake : tree.makeDirectories here count p = { tree := after }) :
    tree.Grows after here p ∧
      ∃ place, after.locate here p = .ok place ∧ after.entry? place = some .directory := by
  induction count generalizing p after with
  | zero =>
      rw [makeDirectories, Attempt.andThen_eq_iff] at hmake
      obtain ⟨between, htree, hrequire⟩ := hmake
      cases htree
      exact requireDirectory_eq_ok hrequire
  | succ count ih =>
      rw [makeDirectories, Attempt.andThen_eq_iff] at hmake
      obtain ⟨between, hparents, hrequire⟩ := hmake
      obtain ⟨hgrows, hlocate⟩ := requireDirectory_eq_ok hrequire
      refine ⟨?_, hlocate⟩
      split at hparents
      next => exact (ih hparents).1.of_parent.trans hgrows
      next =>
        cases hparents
        exact hgrows

/-! ## Writing a file -/

theorem write_eq_ok_iff {bytes : List UInt8} : tree.write here p bytes = .ok after ↔
    ∃ place, tree.locate here p = .ok place ∧ tree.IsWritable (tree.home place) ∧
      after = tree.set (tree.home place) (.file bytes) := by
  rw [write]
  cases hlocate : tree.locate here p with
  | error refusal => simp [bind, Except.bind]
  | ok place =>
      simp only [bind, Except.bind, Except.ok.injEq, exists_eq_left', IsWritable]
      cases hentry : tree.entry? (tree.home place) with
      | none =>
          cases hgrants : tree.grants .write (tree.home place).dropLast with
          | false => simp [pure, Except.pure, hgrants]
          | true =>
              simp only [pure, Except.pure, hgrants, if_true, reduceCtorEq, exists_false, false_and,
                false_or, true_and, Except.ok.injEq]
              exact eq_comm
      | some entry =>
          cases entry with
          | file old =>
              cases hgrants : tree.grants .write (tree.home place) with
              | false => simp [pure, Except.pure, hgrants]
              | true =>
                  simp only [pure, Except.pure, hgrants, if_true, Option.some.injEq,
                    Entry.file.injEq, exists_eq', reduceCtorEq, false_and, or_false, true_and,
                    Except.ok.injEq]
                  exact eq_comm
          | directory => simp
          | link target => simp
          | twin home => simp

variable {directory : Path} {name : Text}

/-- A name leads to its place in the directory, unless it is that of a link. -/
theorem locate_child {inside : List Text} (hname : name ≠ Path.up)
    (hdirectory : tree.locate here directory = .ok inside)
    (hlocate : tree.locate here (directory.child name) = .ok place) :
    place = inside ++ [name] ∨ ∃ target, tree.entry? (inside ++ [name]) = some (.link target) := by
  obtain ⟨links, -, hinside⟩ := locate_eq_ok_iff.mp hdirectory
  obtain ⟨more, -, hplace⟩ := locate_eq_ok_iff.mp hlocate
  obtain ⟨mid, first, last, hfirst, hlast, -⟩ := hplace.split
  obtain ⟨rfl, -⟩ := hfirst.unique hinside
  cases hlast with
  | up => exact absurd rfl hname
  | down _ _ _ hstay => exact .inl (leads_nil.mp hstay).1
  | link _ _ hentry => exact .inr ⟨_, hentry⟩

theorem Writes.sustains {inside : List Text} {bytes : List UInt8}
    (h : before.Writes after here directory name inside place bytes) : before.Sustains after := by
  refine ⟨fun other hother => ?_, fun other target => ?_, h.barred⟩
  · by_cases hsame : other = before.home place
    · rcases h.writable with hnone | ⟨old, hold⟩ <;> simp_all
    · rcases h.others other hsame with hkept | ⟨hnone, -⟩
      · rwa [hkept]
      · rw [hother] at hnone
        cases hnone
  · by_cases hsame : other = before.home place
    · rw [hsame, h.written]
      rcases h.writable with hnone | ⟨old, hold⟩ <;> simp [*]
    · rcases h.others other hsame with hkept | ⟨hnone, hmade, -⟩
      · rw [hkept]
      · rw [hnone, hmade]
        exact iff_of_false nofun nofun

/-- What a file that is written changes. -/
theorem writeInto_eq {bytes : List UInt8} (hname : name ≠ Path.up)
    (hwrite : tree.writeInto here directory name bytes = { tree := after }) :
    ∃ inside place, tree.Writes after here directory name inside place bytes := by
  rw [writeInto, Attempt.andThen_eq_iff] at hwrite
  obtain ⟨made, hmake, hwrite⟩ := hwrite
  obtain ⟨hgrows, inside, hdirectory, hstands⟩ := makeDirectories_eq hmake
  cases hfile : made.write here (directory.child name) bytes with
  | error refusal =>
      rw [hfile] at hwrite
      cases hwrite
  | ok written =>
      rw [hfile] at hwrite
      cases hwrite
      obtain ⟨place, hlocate, hwritable, rfl⟩ := write_eq_ok_iff.mp hfile
      rw [hgrows.home_eq] at hwritable ⊢
      have hfree : made.entry? (tree.home place) = none ∨
          ∃ old, made.entry? (tree.home place) = some (.file old) :=
        hwritable.elim (fun h => .inr h.1) fun h => .inl h.1
      have hdirectory' : made.entry? (tree.home place) ≠ some .directory := by
        rcases hfree with hnone | ⟨old, hold⟩ <;> simp [*]
      have hsustains : made.Sustains (made.set (tree.home place) (.file bytes)) :=
        .set hdirectory' (by rcases hfree with hnone | ⟨old, hold⟩ <;> simp [*]) nofun
      -- where the bytes go there is no directory, so none was made there
      have hsame : made.entry? (tree.home place) = tree.entry? (tree.home place) :=
        (hgrows.keeps _).resolve_right fun ⟨_, hmade, _⟩ => hdirectory' hmade
      exact ⟨inside, place,
        { directory_located := hsustains.locate hdirectory
          directory_stands := hsustains.directory _ hstands
          located := hsustains.locate hlocate
          place_eq := (locate_child hname hdirectory hlocate).imp_right fun ⟨target, hlink⟩ =>
            ⟨target, (hgrows.sustains.link _ target).mp hlink⟩
          writable := hsame ▸ hfree
          written := entry?_set_self (ne_nil_of_not_directory hdirectory')
          others := fun other hother => by
            rw [Keeps, entry?_set_ne hother]
            exact (hgrows.keeps other).imp_right fun ⟨hnone, hmade, count, hway⟩ =>
              ⟨hnone, hmade, count, hsustains.locate hway⟩
          barred := hgrows.barred }⟩

end FileTree

end StackScript
