import StackScript.Command.Resolve

/-! # Where paths lead

To follow a path is a matter of the names on it: each leads back, on to a place, or to a link,
whose names then come first. Resolving a path by its text comes to the same place: a link that is
being put in takes more links to follow than any that is met within it, so that a path that leads
anywhere runs into no circle.
-/

namespace StackScript

namespace Path

variable {here : List Text} {p : Path} {name : Text}

theorem name_child : (p.child name).name = name := by
  rw [Path.name, child, List.getLastD_concat]

theorem parent_child : (p.child name).parent = p := by
  rw [parent, child, List.dropLast_concat]

theorem start_parent : p.parent.start here = p.start here := rfl

theorem follow_cons (place : List Text) (name : Text) (rest : List Text) :
    follow place (name :: rest) =
      follow (if name == up then place.dropLast else place ++ [name]) rest := rfl

end Path

namespace FileTree

/-- Names lead from a directory to a place, along that many links. -/
inductive Leads (tree : FileTree) : (here names place : List Text) → (links : Nat) → Prop
  | stay {here : List Text} : Leads tree here [] here 0
  | up {here rest place : List Text} {links : Nat} (henter : tree.enter here = .ok ())
      (hrest : Leads tree here.dropLast rest place links) :
      Leads tree here (Path.up :: rest) place links
  | down {here rest place : List Text} {name : Text} {links : Nat}
      (henter : tree.enter here = .ok ()) (hname : name ≠ Path.up)
      (hentry : ∀ target, tree.entry? (here ++ [name]) ≠ some (.link target))
      (hrest : Leads tree (here ++ [name]) rest place links) :
      Leads tree here (name :: rest) place links
  | link {here rest place : List Text} {name : Text} {target : Path} {links : Nat}
      (henter : tree.enter here = .ok ()) (hname : name ≠ Path.up)
      (hentry : tree.entry? (here ++ [name]) = some (.link target))
      (hrest : Leads tree (target.start here) (target.names ++ rest) place links) :
      Leads tree here (name :: rest) place (links + 1)

variable {tree before after : FileTree} {here place other names first rest : List Text}
  {links : Nat}

/-! ## Following names -/

theorem enter_eq_ok_iff : tree.enter place = .ok () ↔
    tree.entry? place = some .directory ∧ tree.grants .enter place = true := by
  rw [enter]
  cases tree.entry? place with
  | none => simp
  | some entry => cases entry <;> simp

theorem leads_nil : tree.Leads here [] place links ↔ place = here ∧ links = 0 := by
  constructor
  · rintro ⟨⟩
    exact ⟨rfl, rfl⟩
  · rintro ⟨rfl, rfl⟩
    exact .stay

theorem leads_up : tree.Leads here (Path.up :: rest) place links ↔
    tree.enter here = .ok () ∧ tree.Leads here.dropLast rest place links := by
  constructor
  · intro h
    cases h with
    | up henter hrest => exact ⟨henter, hrest⟩
    | down _ hname => exact absurd rfl hname
    | link _ hname => exact absurd rfl hname
  · exact fun ⟨henter, hrest⟩ => .up henter hrest

theorem leads_down {name : Text} (hname : name ≠ Path.up)
    (hentry : ∀ target, tree.entry? (here ++ [name]) ≠ some (.link target)) :
    tree.Leads here (name :: rest) place links ↔
      tree.enter here = .ok () ∧ tree.Leads (here ++ [name]) rest place links := by
  constructor
  · intro h
    cases h with
    | up => exact absurd rfl hname
    | down henter _ _ hrest => exact ⟨henter, hrest⟩
    | link _ _ hlink => exact absurd hlink (hentry _)
  · exact fun ⟨henter, hrest⟩ => .down henter hname hentry hrest

theorem leads_link {name : Text} {target : Path} (hname : name ≠ Path.up)
    (hentry : tree.entry? (here ++ [name]) = some (.link target)) :
    tree.Leads here (name :: rest) place links ↔ tree.enter here = .ok () ∧
      ∃ more, links = more + 1 ∧
        tree.Leads (target.start here) (target.names ++ rest) place more := by
  constructor
  · intro h
    cases h with
    | up => exact absurd rfl hname
    | down _ _ hother => exact absurd hentry (hother _)
    | link henter _ hlink hrest =>
        rw [hentry] at hlink
        cases hlink
        exact ⟨henter, _, rfl, hrest⟩
  · rintro ⟨henter, more, rfl, hrest⟩
    exact .link henter hname hentry hrest

/-- How names lead on from where the first link among them is met. -/
theorem leads_iff_advance : tree.Leads here names place links ↔
    tree.advance here names = .ok (.place place) ∧ links = 0 ∨
    ∃ directory target rest more, tree.advance here names = .ok (.link directory target rest) ∧
      links = more + 1 ∧
        tree.Leads (target.start directory) (target.names ++ rest) place more := by
  induction names generalizing here with
  | nil => simp [leads_nil, advance, eq_comm]
  | cons name rest ih =>
      rw [advance]
      cases henter : tree.enter here with
      | error refusal =>
          have hnot : ¬ tree.Leads here (name :: rest) place links := by
            intro h
            cases h <;> simp_all
          simp [bind, Except.bind, hnot]
      | ok =>
          simp only [bind, Except.bind]
          by_cases hname : name = Path.up
          · subst hname
            rw [leads_up, henter, ih]
            simp
          · rw [if_neg (by simpa using hname)]
            split
            next target hentry =>
              rw [leads_link hname hentry]
              constructor
              · rintro ⟨-, more, hlinks, hmore⟩
                exact .inr ⟨here, target, rest, more, rfl, hlinks, hmore⟩
              · rintro (⟨hplace, -⟩ | ⟨_, _, _, more, hreach, hlinks, hmore⟩)
                · cases hplace
                · cases hreach
                  exact ⟨henter, more, hlinks, hmore⟩
            next hother =>
              rw [leads_down hname hother, ih]
              simp [henter]

/-- Following names gives the place that they lead to along as many links as are allowed. -/
theorem walk_eq_ok_iff {most : Nat} : tree.walk most here names = .ok place ↔
    ∃ links ≤ most, tree.Leads here names place links := by
  induction most generalizing here names with
  | zero =>
      simp only [Nat.le_zero, exists_eq_left]
      rw [walk, leads_iff_advance]
      cases tree.advance here names with
      | error refusal => simp [bind, Except.bind]
      | ok reach => cases reach <;> simp [bind, Except.bind, pure, Except.pure]
  | succ most ih =>
      rw [exists_congr fun _ => and_congr_right fun _ => leads_iff_advance, walk]
      cases tree.advance here names with
      | error refusal => simp [bind, Except.bind]
      | ok reach =>
          cases reach with
          | place found => simp [bind, Except.bind, pure, Except.pure]
          | link directory target rest =>
              simp only [bind, Except.bind]
              rw [ih]
              constructor
              · rintro ⟨links, hmost, hleads⟩
                exact ⟨links + 1, by omega, .inr ⟨_, _, _, links, rfl, rfl, hleads⟩⟩
              · rintro ⟨links, hmost, ⟨hplace, -⟩ | ⟨_, _, _, more, hlink, rfl, hleads⟩⟩
                · cases hplace
                · cases hlink
                  exact ⟨more, by omega, hleads⟩

namespace Leads

theorem append {mid : List Text} {more : Nat} (hfirst : tree.Leads here first mid links)
    (hrest : tree.Leads mid rest place more) :
    tree.Leads here (first ++ rest) place (links + more) := by
  induction hfirst with
  | stay => rwa [Nat.zero_add]
  | up henter _ ih => exact .up henter (ih hrest)
  | down henter hname hentry _ ih => exact .down henter hname hentry (ih hrest)
  | link henter hname hentry _ ih =>
      rw [Nat.add_right_comm]
      have hahead := ih hrest
      rw [List.append_assoc] at hahead
      exact .link henter hname hentry hahead

/-- The first names lead somewhere, and the others on from there. -/
theorem split (h : tree.Leads here (first ++ rest) place links) :
    ∃ mid some more, tree.Leads here first mid some ∧ tree.Leads mid rest place more ∧
      links = some + more := by
  generalize hnames : first ++ rest = names at h
  induction h generalizing first with
  | stay =>
      obtain ⟨rfl, rfl⟩ := List.append_eq_nil_iff.mp hnames
      exact ⟨_, 0, 0, .stay, .stay, rfl⟩
  | @up here _ _ _ henter hrest ih =>
      cases first with
      | nil =>
          obtain rfl := hnames
          exact ⟨here, 0, _, .stay, .up henter hrest, (Nat.zero_add _).symm⟩
      | cons name first =>
          obtain ⟨rfl, rfl⟩ := List.cons_eq_cons.mp hnames
          obtain ⟨mid, some, more, hfirst, hmore, hlinks⟩ := ih rfl
          exact ⟨mid, some, more, .up henter hfirst, hmore, hlinks⟩
  | @down here _ _ _ _ henter hname hentry hrest ih =>
      cases first with
      | nil =>
          obtain rfl := hnames
          exact ⟨here, 0, _, .stay, .down henter hname hentry hrest, (Nat.zero_add _).symm⟩
      | cons name first =>
          obtain ⟨rfl, rfl⟩ := List.cons_eq_cons.mp hnames
          obtain ⟨mid, some, more, hfirst, hmore, hlinks⟩ := ih rfl
          exact ⟨mid, some, more, .down henter hname hentry hfirst, hmore, hlinks⟩
  | @link here _ _ _ target links henter hname hentry hrest ih =>
      cases first with
      | nil =>
          obtain rfl := hnames
          exact ⟨here, 0, _, .stay, .link henter hname hentry hrest, (Nat.zero_add _).symm⟩
      | cons name first =>
          obtain ⟨rfl, rfl⟩ := List.cons_eq_cons.mp hnames
          obtain ⟨mid, some, more, hfirst, hmore, rfl⟩ := ih (List.append_assoc ..)
          exact ⟨mid, some + 1, more, .link henter hname hentry hfirst, hmore, by omega⟩

theorem unique {more : Nat} (h : tree.Leads here names place links)
    (h' : tree.Leads here names other more) : place = other ∧ links = more := by
  induction h generalizing more with
  | stay =>
      obtain ⟨rfl, rfl⟩ := leads_nil.mp h'
      exact ⟨rfl, rfl⟩
  | up _ _ ih => exact ih (leads_up.mp h').2
  | down _ hname hentry _ ih => exact ih ((leads_down hname hentry).mp h').2
  | link _ hname hentry _ ih =>
      obtain ⟨-, more, rfl, hmore⟩ := (leads_link hname hentry).mp h'
      obtain ⟨rfl, rfl⟩ := ih hmore
      exact ⟨rfl, rfl⟩

/-- Without links names lead where they say. -/
theorem eq_follow (h : tree.Leads here names place 0) : place = Path.follow here names := by
  generalize hlinks : 0 = links at h
  induction h with
  | stay => rfl
  | up _ _ ih => exact ih hlinks
  | down _ hname _ _ ih => rw [ih hlinks, Path.follow_cons, if_neg (by simpa using hname)]
  | link => cases hlinks

end Leads

variable {p : Path} {name : Text}

theorem locate_eq_ok_iff : tree.locate here p = .ok place ↔
    ∃ links ≤ linkLimit, tree.Leads (p.start here) p.names place links := walk_eq_ok_iff

/-! ## Places without links -/

/-- A place that its names lead to, with no link among them. -/
structure IsDirect (tree : FileTree) (place : List Text) : Prop where
  directories : ∀ count < place.length, tree.entry? (place.take count) = some .directory
  not_link : ∀ target, tree.entry? place ≠ some (.link target)
  up_notMem : Path.up ∉ place

namespace IsDirect

theorem root (tree : FileTree) : tree.IsDirect [] :=
  ⟨nofun, nofun, List.not_mem_nil⟩

theorem start (h : tree.IsDirect here) (p : Path) : tree.IsDirect (p.start here) := by
  rw [Path.start]
  split
  next => exact h
  next => exact .root tree

theorem dropLast (h : tree.IsDirect place) : tree.IsDirect place.dropLast := by
  rcases List.eq_nil_or_concat place with rfl | ⟨before, last, rfl⟩
  · exact h
  · rw [List.concat_eq_append] at h ⊢
    rw [List.dropLast_concat]
    have hdirectory := h.directories before.length (by simp)
    rw [List.take_left] at hdirectory
    refine ⟨fun count hcount => ?_, fun target => ?_, fun hmem => ?_⟩
    · rw [← h.directories count (by simp; omega),
        List.take_append_of_le_length (Nat.le_of_lt hcount)]
    · rw [hdirectory]
      exact nofun
    · exact h.up_notMem (List.mem_append_left _ hmem)

theorem concat (h : tree.IsDirect place) (hdirectory : tree.entry? place = some .directory)
    (hname : name ≠ Path.up)
    (hentry : ∀ target, tree.entry? (place ++ [name]) ≠ some (.link target)) :
    tree.IsDirect (place ++ [name]) := by
  refine ⟨fun count hcount => ?_, hentry, by simpa using ⟨h.up_notMem, hname.symm⟩⟩
  rw [List.length_append, List.length_singleton, Nat.lt_succ_iff] at hcount
  rw [List.take_append_of_le_length hcount]
  rcases Nat.lt_or_eq_of_le hcount with hbefore | rfl
  · exact h.directories count hbefore
  · rwa [List.take_length]

end IsDirect

/-- From a place without links names lead to such a place. -/
theorem Leads.isDirect (hhere : tree.IsDirect here) (h : tree.Leads here names place links) :
    tree.IsDirect place := by
  induction h with
  | stay => exact hhere
  | up _ _ ih => exact ih hhere.dropLast
  | down henter hname hentry _ ih =>
      exact ih (hhere.concat (enter_eq_ok_iff.mp henter).1 hname hentry)
  | link _ _ _ _ ih => exact ih (hhere.start _)

/-! ## Resolving paths -/

theorem target?_child (hp : tree.Leads (p.start here) p.names place 0)
    (henter : tree.enter place = .ok ()) :
    tree.target? here (p.child name) =
      match tree.entry? (place ++ [name]) with
      | some (.link target) => some target
      | _ => none := by
  have hlocate : tree.locate here p = .ok place :=
    locate_eq_ok_iff.mpr ⟨0, Nat.zero_le _, hp⟩
  rw [target?, locateName, Path.parent_child, hlocate, Path.name_child]
  simp only [bind, Except.bind, henter]
  rfl

/-- The path to the enclosing directory leads there. -/
theorem Leads.back (hp : tree.Leads (p.start here) p.names place 0)
    (henter : tree.enter place = .ok ()) :
    tree.Leads (p.back.start here) p.back.names place.dropLast 0 := by
  rw [Path.back]
  split
  next => exact hp.append (.up henter .stay)
  next hback =>
    rcases List.eq_nil_or_concat p.names with hnil | ⟨names, last, hnames⟩
    · -- the root encloses itself
      have hroot : p.start here = [] := by
        rw [hnil] at hback
        rw [Path.start, if_neg (by simpa using hback)]
      rw [hnil, leads_nil, hroot] at hp
      rw [Path.start_parent, hroot, Path.parent, hnil, hp.1]
      exact .stay
    · have hlast : last ≠ Path.up := by
        rintro rfl
        exact hback (by simp [hnames])
      rw [List.concat_eq_append] at hnames
      rw [hnames] at hp
      obtain ⟨mid, some, more, hfirst, hmore, hlinks⟩ := hp.split
      obtain ⟨rfl, rfl⟩ : some = 0 ∧ more = 0 := by omega
      cases hmore with
      | up => exact absurd rfl hlast
      | down _ _ _ hstay =>
          obtain ⟨rfl, -⟩ := leads_nil.mp hstay
          rw [Path.start_parent, Path.parent, hnames, List.dropLast_concat, List.dropLast_concat]
          exact hfirst

variable {depth : Nat} {pending : List Path}

theorem expand_nil : tree.expand here depth pending p [] = .ok (.clear p) := by
  rw [expand, expandNames]

theorem expand_up : tree.expand here depth pending p (Path.up :: rest) =
    tree.expand here depth pending p.back rest := by
  rw [expand, expandNames, if_pos (beq_self_eq_true _), ← expand]

theorem expand_of_none (hname : name ≠ Path.up)
    (htarget : tree.target? here (p.child name) = none) :
    tree.expand here depth pending p (name :: rest) =
      tree.expand here depth pending (p.child name) rest := by
  rw [expand, expandNames, if_neg (by simpa using hname), htarget, ← expand]

/-- A link that is not being put in already is put in before the names behind it. -/
theorem expand_of_target {target : Path} (hname : name ≠ Path.up)
    (htarget : tree.target? here (p.child name) = some target)
    (hpending : p.child name ∉ pending) :
    tree.expand here (depth + 1) pending p (name :: rest) = do
      match ← tree.expand here depth (p.child name :: pending) (p.base target) target.names with
      | .clear q => tree.expand here (depth + 1) pending q rest
      | .circle q => return .circle { q with names := q.names ++ rest } := by
  rw [expand, expandNames, if_neg (by simpa using hname), htarget]
  dsimp only
  rw [if_neg (by simpa using hpending), Path.parent_child]
  rfl

theorem expand_zero_of_target {target : Path} (hname : name ≠ Path.up)
    (htarget : tree.target? here (p.child name) = some target)
    (hpending : p.child name ∉ pending) :
    tree.expand here 0 pending p (name :: rest) = .error .tooDeep := by
  rw [expand, expandNames, if_neg (by simpa using hname), htarget]
  dsimp only
  rw [if_neg (by simpa using hpending)]
  rfl

/-- What is put in for a path starts where the path does. -/
theorem leads_base {q : Path} (hq : tree.Leads (q.start here) q.names place 0) :
    tree.Leads ((q.base p).start here) (q.base p).names (p.start place) 0 := by
  rw [Path.base, Path.start.eq_1 place]
  split
  next => exact hq
  next => exact .stay

/-- Putting in the links among names comes to the place, unless too few calls are left. -/
def ComesTo (tree : FileTree) (here : List Text) (depth : Nat) (pending : List Path) (p : Path)
    (names place : List Text) : Prop :=
  tree.expand here depth pending p names = .error .tooDeep ∨
    ∃ q, tree.expand here depth pending p names = .ok (.clear q) ∧
      tree.Leads (q.start here) q.names place 0

namespace ComesTo

theorem nil (hp : tree.Leads (p.start here) p.names place 0) :
    tree.ComesTo here depth pending p [] place := .inr ⟨p, expand_nil, hp⟩

theorem up (hback : tree.ComesTo here depth pending p.back rest place) :
    tree.ComesTo here depth pending p (Path.up :: rest) place := by
  rw [ComesTo, expand_up]
  exact hback

theorem down (hname : name ≠ Path.up) (htarget : tree.target? here (p.child name) = none)
    (hchild : tree.ComesTo here depth pending (p.child name) rest place) :
    tree.ComesTo here depth pending p (name :: rest) place := by
  rw [ComesTo, expand_of_none hname htarget]
  exact hchild

theorem zero {target : Path} (hname : name ≠ Path.up)
    (htarget : tree.target? here (p.child name) = some target) (hpending : p.child name ∉ pending) :
    tree.ComesTo here 0 pending p (name :: rest) place :=
  .inl (expand_zero_of_target hname htarget hpending)

/-- The names behind a link are followed from where the link leads. -/
theorem link {target : Path} {inner : List Text} (hname : name ≠ Path.up)
    (htarget : tree.target? here (p.child name) = some target) (hpending : p.child name ∉ pending)
    (hput : tree.ComesTo here depth (p.child name :: pending) (p.base target) target.names inner)
    (hrest : ∀ q, tree.Leads (q.start here) q.names inner 0 →
      tree.ComesTo here (depth + 1) pending q rest place) :
    tree.ComesTo here (depth + 1) pending p (name :: rest) place := by
  rw [ComesTo, expand_of_target hname htarget hpending]
  rcases hput with hdeep | ⟨q, hclear, hq⟩
  · exact .inl (by rw [hdeep]; rfl)
  · rw [hclear]
    exact hrest q hq

end ComesTo

/-- Each of the paths that lead anywhere takes more than `links` links to follow. -/
def TakeMore (tree : FileTree) (here : List Text) (paths : List Path) (links : Nat) : Prop :=
  ∀ path ∈ paths, ∀ place cost,
    tree.Leads (path.start here) path.names place cost → links < cost

namespace TakeMore

variable {paths : List Path} {fewer cost : Nat}

theorem mono (h : tree.TakeMore here paths links) (hle : fewer ≤ links) :
    tree.TakeMore here paths fewer :=
  fun path hpath place cost hcost => Nat.lt_of_le_of_lt hle (h path hpath place cost hcost)

theorem cons (h : tree.TakeMore here paths links)
    (hleads : tree.Leads (p.start here) p.names place cost) (hless : links < cost) :
    tree.TakeMore here (p :: paths) links := by
  refine fun path hpath other more hmore => ?_
  rcases List.mem_cons.mp hpath with rfl | hpath
  · rwa [(hmore.unique hleads).2]
  · exact h path hpath other more hmore

theorem not_mem (h : tree.TakeMore here paths links)
    (hleads : tree.Leads (p.start here) p.names place cost) (hle : cost ≤ links) : p ∉ paths :=
  fun hmem => absurd (h p hmem place cost hleads) (Nat.not_lt.mpr hle)

end TakeMore

/-- Putting in the links among names comes to where the names lead. The links in `pending` are out
of the way, since each takes more links to follow. -/
theorem comesTo_of_leads {mid : List Text} (hp : tree.Leads (p.start here) p.names mid 0)
    (hleads : tree.Leads mid names place links) (hpending : tree.TakeMore here pending links) :
    tree.ComesTo here depth pending p names place := by
  induction links using Nat.strongRecOn generalizing depth pending p names mid place with
  | ind links ih =>
    induction names generalizing p mid with
    | nil =>
        obtain ⟨rfl, -⟩ := leads_nil.mp hleads
        exact .nil hp
    | cons name rest ihnames =>
        by_cases hname : name = Path.up
        · subst hname
          obtain ⟨henter, hrest⟩ := leads_up.mp hleads
          exact .up (ihnames (hp.back henter) hrest)
        by_cases hlink : ∃ target, tree.entry? (mid ++ [name]) = some (.link target)
        · obtain ⟨target, hentry⟩ := hlink
          obtain ⟨henter, more, rfl, hmore⟩ := (leads_link hname hentry).mp hleads
          obtain ⟨inner, within, behind, hinner, hrest, rfl⟩ := hmore.split
          -- the link itself takes one more than its target does
          have hcost : tree.Leads (p.start here) (p.child name).names inner (0 + (within + 1)) :=
            hp.append (.link henter hname hentry (by rwa [List.append_nil]))
          rw [Nat.zero_add] at hcost
          have hnot : p.child name ∉ pending := hpending.not_mem hcost (by omega)
          have htarget : tree.target? here (p.child name) = some target := by
            rw [target?_child hp henter, hentry]
          cases depth with
          | zero => exact .zero hname htarget hnot
          | succ depth =>
              have hwithin : tree.TakeMore here (p.child name :: pending) within :=
                (hpending.mono (by omega)).cons hcost (Nat.lt_succ_self within)
              have hput : tree.ComesTo here depth (p.child name :: pending) (p.base target)
                  target.names inner := ih within (by omega) (leads_base hp) hinner hwithin
              exact .link hname htarget hnot hput fun q hq =>
                ih behind (by omega) hq hrest (hpending.mono (by omega))
        · have hother : ∀ target, tree.entry? (mid ++ [name]) ≠ some (.link target) :=
            fun target hentry => hlink ⟨target, hentry⟩
          obtain ⟨henter, hrest⟩ := (leads_down hname hother).mp hleads
          have htarget : tree.target? here (p.child name) = none := by
            rw [target?_child hp henter]
            split
            next target hentry => exact absurd hentry (hother target)
            next => rfl
          exact .down hname htarget (ihnames (hp.append (.down henter hname hother .stay)) hrest)

theorem enter_ne_loop : tree.enter place ≠ .error .loop := by
  rw [enter]
  split
  next => exact nofun
  next => split <;> exact nofun
  next => exact nofun

namespace IsDirect

/-- There is no link on the way to a place without links. -/
theorem advance (h : tree.IsDirect (here ++ names)) :
    tree.advance here names = .ok (.place (here ++ names)) ∨
      ∃ refusal ≠ .loop, tree.advance here names = .error refusal := by
  induction names generalizing here with
  | nil => exact .inl (by rw [FileTree.advance, List.append_nil])
  | cons name rest ih =>
      rw [FileTree.advance]
      cases henter : tree.enter here with
      | error refusal => exact .inr ⟨refusal, fun h => enter_ne_loop (h ▸ henter), rfl⟩
      | ok =>
          have hname : name ≠ Path.up := fun h' => h.up_notMem (by simp [h'])
          have hentry : ∀ target, tree.entry? (here ++ [name]) ≠ some (.link target) := by
            intro target hlink
            cases rest with
            | nil => exact h.not_link target hlink
            | cons next rest =>
                have := h.directories (here.length + 1) (by simp)
                rw [List.append_cons, List.take_append_of_le_length (by simp),
                  List.take_of_length_le (by simp), hlink] at this
                cases this
          rw [List.append_cons] at h
          have hahead := ih h
          rw [← List.append_cons] at hahead
          simp only [bind, Except.bind]
          rw [if_neg (by simpa using hname)]
          exact hahead

theorem walk_ne_loop {most : Nat} (h : tree.IsDirect (here ++ names)) :
    tree.walk most here names ≠ .error .loop := by
  rw [walk]
  rcases h.advance with hplace | ⟨refusal, hne, herror⟩
  · rw [hplace]
    exact nofun
  · rw [herror]
    exact fun h => hne (Except.error.inj h)

/-- The names of a place without links lead nowhere else. -/
theorem eq_of_leads (h : tree.IsDirect (here ++ names))
    (hleads : tree.Leads here names place links) : place = here ++ names := by
  rw [leads_iff_advance] at hleads
  rcases h.advance with hplace | ⟨refusal, -, herror⟩
  · rw [hplace] at hleads
    rcases hleads with ⟨hsame, -⟩ | ⟨_, _, _, _, hlink, -⟩
    · cases hsame
      rfl
    · cases hlink
  · rw [herror] at hleads
    rcases hleads with ⟨hsame, -⟩ | ⟨_, _, _, _, hlink, -⟩
    · cases hsame
    · cases hlink

end IsDirect

/-- A path from a place without links leads to such a place. -/
theorem isDirect_of_locate (hhere : tree.IsDirect here) (hlocate : tree.locate here p = .ok place) :
    tree.IsDirect place := by
  obtain ⟨links, -, hleads⟩ := locate_eq_ok_iff.mp hlocate
  exact hleads.isDirect (hhere.start p)

/-- If a path leads to a place, then the place is what it is resolved to, unless too few calls
are left. -/
theorem resolve_of_locate (hhere : tree.IsDirect here) (hlocate : tree.locate here p = .ok place) :
    tree.resolve here depth p = .error .tooDeep ∨
      tree.resolve here depth p = .ok ⟨['/'], place⟩ := by
  obtain ⟨links, -, hleads⟩ := locate_eq_ok_iff.mp hlocate
  have hexpand : tree.ComesTo here depth [] (Path.base ⟨[], []⟩ p) p.names place :=
    comesTo_of_leads (leads_base .stay) hleads nofun
  rw [resolve]
  rcases hexpand with hdeep | ⟨q, hclear, hq⟩
  · exact .inl (by rw [hdeep]; rfl)
  · rw [hclear]
    simp only [bind, Except.bind, Trace.path, ← hq.eq_follow]
    split
    next hloop => exact absurd hloop (isDirect_of_locate hhere hlocate).walk_ne_loop
    next => exact .inr rfl

end FileTree

end StackScript
