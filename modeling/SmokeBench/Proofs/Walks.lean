import SmokeBench.Machine.FileTree
import SmokeBench.Proofs.ScopePaths

/-! Walks through a tree of files, told as a relation with one case for each piece of a path. A walk
goes through everything that leads up to a piece it passed, and it goes the same way in a tree that
has grown. Where there are no links it goes along the names of the path and nowhere else. -/

namespace SmokeBench.Machine

open Bytes (slash dot)

namespace FileTree

variable {t t' : FileTree} {last : Bool} {links : Nat} {here l : Location} {piece : Bytes}
  {rest : List Bytes} {e : Entry} {mode : Nat}

/-- A piece that leads to an entry of its own. -/
def IsName (piece : Bytes) : Prop := piece ∉ Path.signs ∧ piece.length ≤ nameLimit

theorem isName_iff : IsName piece ↔
    ¬ (piece = [] ∨ piece = [dot]) ∧ piece ≠ [dot, dot] ∧ ¬ nameLimit < piece.length := by
  unfold IsName Path.signs
  rw [Nat.not_lt, ← and_assoc]
  simp [and_assoc]

section Put

theorem at?_cons (h : l ≠ []) : t.at? l = (t.entries.find? (·.1 == l)).map (·.2) := by
  rw [at?, if_neg (by simpa using h)]

theorem at?_put (hl : l ≠ []) (l' : Location) :
    (t.put l e).at? l' = if l' = l then some e else t.at? l' := by
  by_cases hroot : l' = []
  · rw [hroot, if_neg hl.symm]
    rfl
  rw [at?_cons hroot, at?_cons hroot]
  unfold put
  by_cases hthere : t.entries.any (·.1 == l) = true
  · rw [if_pos hthere]
    dsimp only
    have hkey (p : Location × Entry) : (if p.1 == l then (l, e) else p).1 = p.1 := by
      split
      · rename_i heq
        exact (beq_iff_eq.mp heq).symm
      · rfl
    rw [List.find?_map]
    have hfind : (fun p : Location × Entry => p.1 == l') ∘
        (fun p => if p.1 == l then (l, e) else p) = fun p => p.1 == l' := funext fun p => congrArg (· == l') (hkey p)
    rw [hfind, Option.map_map]
    by_cases heq : l' = l
    · subst heq
      rw [if_pos rfl]
      obtain ⟨p, hp, hpl⟩ := List.any_eq_true.mp hthere
      cases hfound : t.entries.find? (·.1 == l') with
      | none => exact absurd hpl (List.find?_eq_none.mp hfound p hp)
      | some q =>
        have hq : q.1 = l' := by simpa using List.find?_some hfound
        simp [hq]
    · rw [if_neg heq]
      cases hfound : t.entries.find? (·.1 == l') with
      | none => rfl
      | some q =>
        have hq : q.1 = l' := by simpa using List.find?_some hfound
        have hne : q.1 ≠ l := hq ▸ heq
        simp [hne]
  · rw [if_neg hthere, List.find?_cons]
    by_cases heq : l' = l
    · subst heq
      simp
    · rw [if_neg heq, beq_false_of_ne (Ne.symm heq)]

end Put

def Place.goal : Place → Location
  | .found l _ => l
  | .absent dir name _ => dir ++ [name]

def Place.entry? : Place → Option Entry
  | .found _ e => some e
  | .absent .. => none

/-- Walks that end somewhere. -/
inductive Walks (t : FileTree) (last : Bool) : Nat → Location → List Bytes → Place → Prop
  | found {links : Nat} {here : Location} {e : Entry} (there : t.at? here = some e) :
      Walks t last links here [] (.found here e)
  | stay {links mode : Nat} {here : Location} {piece : Bytes} {rest : List Bytes} {place : Place}
      (dir : t.at? here = some (.directory mode)) (idle : piece = [] ∨ piece = [dot])
      (h : Walks t last links here rest place) : Walks t last links here (piece :: rest) place
  | up {links mode : Nat} {here : Location} {rest : List Bytes} {place : Place}
      (dir : t.at? here = some (.directory mode)) (h : Walks t last links here.dropLast rest place) :
      Walks t last links here ([dot, dot] :: rest) place
  | into {links mode : Nat} {here : Location} {piece : Bytes} {rest : List Bytes} {place : Place}
      {e : Entry} (dir : t.at? here = some (.directory mode)) (name : IsName piece)
      (there : t.at? (here ++ [piece]) = some e) (plain : ∀ target, e ≠ .link target)
      (h : Walks t last links (here ++ [piece]) rest place) :
      Walks t last links here (piece :: rest) place
  | follow {links mode : Nat} {here : Location} {piece : Bytes} {rest : List Bytes} {place : Place}
      {target : Bytes} (dir : t.at? here = some (.directory mode)) (name : IsName piece)
      (there : t.at? (here ++ [piece]) = some (.link target)) (on : rest ≠ [] ∨ last = true)
      (h : Walks t last links (if target.head? = some slash then [] else here)
        (pieces target ++ rest) place) :
      Walks t last (links + 1) here (piece :: rest) place
  | link {links mode : Nat} {here : Location} {piece target : Bytes}
      (dir : t.at? here = some (.directory mode)) (name : IsName piece)
      (there : t.at? (here ++ [piece]) = some (.link target)) (off : last = false) :
      Walks t last links here [piece] (.found (here ++ [piece]) (.link target))
  | absent {links mode : Nat} {here : Location} {piece : Bytes} {rest : List Bytes}
      (dir : t.at? here = some (.directory mode)) (name : IsName piece)
      (none : t.at? (here ++ [piece]) = none) (idle : ∀ p ∈ rest, p = []) :
      Walks t last links here (piece :: rest) (.absent here piece (!rest.isEmpty))

section Equations

theorem walk_found (there : t.at? here = some e) :
    t.walk last links here [] = .ok (.found here e) := by
  rw [walk, there]

theorem walk_stay (dir : t.at? here = some (.directory mode)) (idle : piece = [] ∨ piece = [dot]) :
    t.walk last links here (piece :: rest) = t.walk last links here rest := by
  rw [walk, dir]
  exact if_pos idle

theorem walk_up (dir : t.at? here = some (.directory mode)) :
    t.walk last links here ([dot, dot] :: rest) = t.walk last links here.dropLast rest := by
  rw [walk, dir]
  dsimp only
  rw [if_neg (by decide), if_pos rfl]

theorem walk_name (dir : t.at? here = some (.directory mode)) (name : IsName piece) :
    t.walk last links here (piece :: rest) = match t.at? (here ++ [piece]) with
      | none => if rest.all trivialPiece then .ok (.absent here piece (!rest.isEmpty))
          else .error .notFound
      | some (.link target) =>
        if rest.isEmpty && !last then .ok (.found (here ++ [piece]) (.link target))
        else match links with
          | 0 => .error .linkLoop
          | links + 1 =>
            t.walk last links (if target.head? = some slash then [] else here)
              (pieces target ++ rest)
      | some _ => t.walk last links (here ++ [piece]) rest := by
  obtain ⟨hidle, hup, hshort⟩ := isName_iff.mp name
  rw [walk, dir]
  dsimp only
  exact (if_neg hidle).trans ((if_neg hup).trans ((if_neg hshort).trans rfl))

theorem walk_into (dir : t.at? here = some (.directory mode)) (name : IsName piece)
    (there : t.at? (here ++ [piece]) = some e) (plain : ∀ target, e ≠ .link target) :
    t.walk last links here (piece :: rest) = t.walk last links (here ++ [piece]) rest := by
  rw [walk_name dir name, there]
  cases e with
  | link target => exact absurd rfl (plain target)
  | _ => rfl

theorem walk_follow {target : Bytes} (dir : t.at? here = some (.directory mode))
    (name : IsName piece) (there : t.at? (here ++ [piece]) = some (.link target))
    (on : rest ≠ [] ∨ last = true) :
    t.walk last (links + 1) here (piece :: rest) = t.walk last links
      (if target.head? = some slash then [] else here) (pieces target ++ rest) := by
  rw [walk_name dir name, there]
  dsimp only
  rw [if_neg]
  rw [Bool.and_eq_true, List.isEmpty_iff]
  rintro ⟨hnil, hlast⟩
  rcases on with hne | htrue
  · exact hne hnil
  · rw [htrue] at hlast
    cases hlast

end Equations

theorem walk_of_walks {todo : List Bytes} {place : Place} (h : Walks t last links here todo place) :
    t.walk last links here todo = .ok place := by
  induction h with
  | found there => exact walk_found there
  | stay dir idle _ ih => rw [walk_stay dir idle, ih]
  | up dir _ ih => rw [walk_up dir, ih]
  | into dir name there plain _ ih => rw [walk_into dir name there plain, ih]
  | follow dir name there on _ ih => rw [walk_follow dir name there on, ih]
  | link dir name there off =>
    rw [walk_name dir name, there, off]
    rfl
  | absent dir name none idle =>
    rw [walk_name dir name, none]
    exact if_pos (by simpa [trivialPiece] using idle)

theorem walks_of_walk {todo : List Bytes} {place : Place}
    (h : t.walk last links here todo = .ok place) : Walks t last links here todo place := by
  induction links, here, todo using walk.induct t last with
  | case1 links here e there =>
    rw [walk_found there] at h
    cases h
    exact .found there
  | case3 links here piece rest mode dir idle ih =>
    rw [walk_stay dir idle] at h
    exact .stay dir idle (ih h)
  | case4 links here rest mode dir _ ih =>
    rw [walk_up dir] at h
    exact .up dir (ih h)
  | case6 links here piece rest mode dir hidle hup hlong none idle =>
    have name := isName_iff.mpr ⟨hidle, hup, hlong⟩
    rw [walk_name dir name, none] at h
    dsimp only at h
    rw [if_pos idle] at h
    cases h
    exact .absent dir name none (by simpa [trivialPiece] using idle)
  | case8 links here piece rest mode dir hidle hup hlong target there off =>
    have name := isName_iff.mpr ⟨hidle, hup, hlong⟩
    rw [walk_name dir name, there] at h
    dsimp only at h
    rw [if_pos off] at h
    cases h
    rw [Bool.and_eq_true, List.isEmpty_iff, Bool.not_eq_true'] at off
    obtain ⟨rfl, hlast⟩ := off
    exact .link dir name there hlast
  | case10 here piece rest mode dir hidle hup hlong target there on links ih =>
    have name := isName_iff.mpr ⟨hidle, hup, hlong⟩
    have on' : rest ≠ [] ∨ last = true := by
      rw [Bool.and_eq_true, not_and_or, List.isEmpty_iff, Bool.not_eq_true',
        Bool.not_eq_false] at on
      exact on
    rw [walk_follow dir name there on'] at h
    exact .follow dir name there on' (ih h)
  | case11 links here piece rest mode dir hidle hup hlong e plain there ih =>
    have name := isName_iff.mpr ⟨hidle, hup, hlong⟩
    rw [walk_into dir name there plain] at h
    exact .into dir name there plain (ih h)
  | case2 links here none =>
    rw [walk, none] at h
    cases h
  | case5 links here piece rest mode dir hidle hup hlong =>
    rw [walk, dir] at h
    dsimp only at h
    rw [if_neg hidle, if_neg hup, if_pos hlong] at h
    cases h
  | case7 links here piece rest mode dir hidle hup hlong none idle =>
    rw [walk_name dir (isName_iff.mpr ⟨hidle, hup, hlong⟩), none] at h
    dsimp only at h
    rw [if_neg idle] at h
    cases h
  | case9 here piece rest mode dir hidle hup hlong target there on =>
    rw [walk_name dir (isName_iff.mpr ⟨hidle, hup, hlong⟩), there] at h
    dsimp only at h
    rw [if_neg on] at h
    cases h
  | case12 links here piece rest e hdir there =>
    rw [walk, there] at h
    cases e with
    | directory mode => exact absurd rfl (hdir mode)
    | _ => cases h
  | case13 links here piece rest none =>
    rw [walk, none] at h
    cases h

theorem walk_ok_iff {todo : List Bytes} {place : Place} :
    t.walk last links here todo = .ok place ↔ Walks t last links here todo place :=
  ⟨walks_of_walk, walk_of_walks⟩

variable {todo front more : List Bytes} {place place' : Place}

theorem Walks.unique (h : Walks t last links here todo place)
    (h' : Walks t last links here todo place') : place = place' :=
  Except.ok.inj ((walk_of_walks h).symm.trans (walk_of_walks h'))

section Fronts

theorem Walks.dir_of_ne_nil (h : Walks t last links here todo place) (hne : todo ≠ []) :
    ∃ mode, t.at? here = some (.directory mode) := by
  cases h with
  | found there => exact absurd rfl hne
  | stay dir _ _ => exact ⟨_, dir⟩
  | up dir _ => exact ⟨_, dir⟩
  | into dir _ _ _ _ => exact ⟨_, dir⟩
  | follow dir _ _ _ _ => exact ⟨_, dir⟩
  | link dir _ _ _ => exact ⟨_, dir⟩
  | absent dir _ _ _ => exact ⟨_, dir⟩

theorem Walks.at?_goal (h : Walks t last links here todo place) :
    t.at? place.goal = place.entry? := by
  induction h with
  | found there => exact there
  | stay _ _ _ ih => exact ih
  | up _ _ ih => exact ih
  | into _ _ _ _ _ ih => exact ih
  | follow _ _ _ _ _ ih => exact ih
  | link _ _ there _ => exact there
  | absent _ _ none _ => exact none

theorem Walks.there (h : Walks t last links here todo (.found l e)) : t.at? l = some e :=
  h.at?_goal

theorem Walks.none {dir : Location} {name : Bytes} {b : Bool}
    (h : Walks t last links here todo (.absent dir name b)) : t.at? (dir ++ [name]) = none :=
  h.at?_goal

/-- Whoever gets somewhere along a path passes through what its front leads to. -/
theorem Walks.through (h : Walks t last links here (front ++ more) (.found l e))
    (hmore : more ≠ []) : ∃ l' mode, Walks t true links here front (.found l' (.directory mode)) := by
  generalize htodo : front ++ more = todo at h
  generalize hplace : Place.found l e = place at h
  induction h generalizing front with
  | found _ => exact absurd (List.append_eq_nil_iff.mp htodo).2 hmore
  | @stay _ _ here piece rest place dir idle h ih =>
    cases front with
    | nil => exact ⟨here, _, .found dir⟩
    | cons x front =>
      obtain ⟨rfl, rfl⟩ := List.cons.inj htodo
      obtain ⟨l', mode, hfront⟩ := ih rfl hplace
      exact ⟨l', mode, .stay dir idle hfront⟩
  | @up _ _ here rest place dir h ih =>
    cases front with
    | nil => exact ⟨here, _, .found dir⟩
    | cons x front =>
      obtain ⟨rfl, rfl⟩ := List.cons.inj htodo
      obtain ⟨l', mode, hfront⟩ := ih rfl hplace
      exact ⟨l', mode, .up dir hfront⟩
  | @into _ _ here piece rest place e dir name there plain h ih =>
    cases front with
    | nil => exact ⟨here, _, .found dir⟩
    | cons x front =>
      obtain ⟨rfl, rfl⟩ := List.cons.inj htodo
      obtain ⟨l', mode, hfront⟩ := ih rfl hplace
      exact ⟨l', mode, .into dir name there plain hfront⟩
  | @follow _ _ here piece rest place target dir name there on h ih =>
    cases front with
    | nil => exact ⟨here, _, .found dir⟩
    | cons x front =>
      obtain ⟨rfl, rfl⟩ := List.cons.inj htodo
      -- the rest of the front is now to be walked behind the target of the link
      obtain ⟨l', mode, hfront⟩ := ih (List.append_assoc (pieces target) front more) hplace
      exact ⟨l', mode, .follow dir name there (.inr rfl) hfront⟩
  | @link _ _ here piece target dir name there off =>
    cases front with
    | nil => exact ⟨here, _, .found dir⟩
    | cons x front =>
      exact absurd (List.append_eq_nil_iff.mp (List.cons.inj htodo).2).2 hmore
  | absent _ _ _ _ => cases hplace

theorem Walks.beyond (h : Walks t true links here front (.found l e)) :
    ∃ links', ∀ last more, more ≠ [] →
      t.walk last links here (front ++ more) = t.walk last links' l more := by
  generalize hlast : true = last' at h
  generalize hplace : Place.found l e = place at h
  induction h with
  | @found links here e there =>
    cases hplace
    exact ⟨links, fun _ _ _ => rfl⟩
  | stay dir idle _ ih =>
    obtain ⟨links', hbeyond⟩ := ih hplace
    refine ⟨links', fun last more hmore => ?_⟩
    rw [List.cons_append, walk_stay dir idle, hbeyond last more hmore]
  | up dir _ ih =>
    obtain ⟨links', hbeyond⟩ := ih hplace
    refine ⟨links', fun last more hmore => ?_⟩
    rw [List.cons_append, walk_up dir, hbeyond last more hmore]
  | into dir name there plain _ ih =>
    obtain ⟨links', hbeyond⟩ := ih hplace
    refine ⟨links', fun last more hmore => ?_⟩
    rw [List.cons_append, walk_into dir name there plain, hbeyond last more hmore]
  | follow dir name there _ _ ih =>
    obtain ⟨links', hbeyond⟩ := ih hplace
    refine ⟨links', fun last more hmore => ?_⟩
    have hne : ∀ rest : List Bytes, rest ++ more ≠ [] := fun rest =>
      List.append_ne_nil_of_right_ne_nil rest hmore
    rw [List.cons_append, walk_follow dir name there (.inl (hne _)), ← List.append_assoc,
      hbeyond last more hmore]
  | link _ _ _ off => exact absurd (hlast.trans off) (by decide)
  | absent _ _ _ _ => cases hplace

theorem Walks.trail (h : Walks t true links here front (.found l (.directory mode))) :
    Walks t true links here (front ++ [[]]) (.found l (.directory mode)) := by
  obtain ⟨links', hbeyond⟩ := h.beyond
  rw [← walk_ok_iff, hbeyond _ _ (List.cons_ne_nil _ _), walk_stay h.there (.inl rfl),
    walk_found h.there]

theorem Walks.follows {dir : Location} {name : Bytes} {b : Bool}
    (h : Walks t last links here todo (.absent dir name b)) :
    Walks t true links here todo (.absent dir name b) := by
  generalize hplace : Place.absent dir name b = place at h ⊢
  induction h with
  | found _ => cases hplace
  | stay dir idle _ ih => exact .stay dir idle (ih hplace)
  | up dir _ ih => exact .up dir (ih hplace)
  | into dir name there plain _ ih => exact .into dir name there plain (ih hplace)
  | follow dir name there _ _ ih => exact .follow dir name there (.inr rfl) (ih hplace)
  | link _ _ _ _ => cases hplace
  | absent dir name none idle => exact .absent dir name none idle

end Fronts

section Growth

/-- What walks go through, directories and links, is all kept. -/
def Keeps (t t' : FileTree) : Prop :=
  ∀ l e, t.at? l = some e → (∃ mode, e = .directory mode) ∨ (∃ target, e = .link target) →
    t'.at? l = some e

theorem Keeps.dir (h : t.Keeps t') (dir : t.at? l = some (.directory mode)) :
    t'.at? l = some (.directory mode) :=
  h l _ dir (.inl ⟨mode, rfl⟩)

theorem Keeps.link {target : Bytes} (h : t.Keeps t') (link : t.at? l = some (.link target)) :
    t'.at? l = some (.link target) :=
  h l _ link (.inr ⟨target, rfl⟩)

theorem keeps_put (hl : l ≠ []) (hleaf : ∀ e', t.at? l = some e' →
    (∀ mode, e' ≠ .directory mode) ∧ ∀ target, e' ≠ .link target) : t.Keeps (t.put l e) := by
  intro l' e' there hway
  rw [at?_put hl, if_neg, there]
  rintro rfl
  obtain ⟨hdir, hlink⟩ := hleaf e' there
  rcases hway with ⟨mode, rfl⟩ | ⟨target, rfl⟩
  · exact hdir mode rfl
  · exact hlink target rfl

theorem walks_idle (dir : t.at? here = some (.directory mode)) (idle : ∀ p ∈ rest, p = []) :
    Walks t last links here rest (.found here (.directory mode)) := by
  induction rest with
  | nil => exact .found dir
  | cons p rest ih =>
    exact .stay dir (.inl (idle p List.mem_cons_self))
      (ih fun q hq => idle q (List.mem_cons_of_mem _ hq))

/-- In a tree that has kept its directories and links a walk goes as before, to what is at its goal
by now. -/
theorem Walks.kept (h : Walks t last links here todo place) (hkeeps : t.Keeps t')
    (hgoal : t'.at? place.goal = some e) (hplain : ∀ target, e ≠ .link target)
    (hdir : ∀ dir name, place = .absent dir name true → ∃ mode, e = .directory mode) :
    Walks t' true links here todo (.found place.goal e) := by
  induction h with
  | found there => exact .found hgoal
  | stay dir idle _ ih => exact .stay (hkeeps.dir dir) idle (ih hgoal hdir)
  | up dir _ ih => exact .up (hkeeps.dir dir) (ih hgoal hdir)
  | @into links mode here piece rest place e' dir name there plain h ih =>
    have hrest := ih hgoal hdir
    -- what is passed is a directory and kept; only at the end there may be something else now
    by_cases hnil : rest = []
    · subst hnil
      cases h with
      | found _ => exact .into (hkeeps.dir dir) name hgoal hplain (.found hgoal)
    · obtain ⟨mode', hmode⟩ := h.dir_of_ne_nil hnil
      exact .into (hkeeps.dir dir) name (hkeeps.dir hmode) (by simp) hrest
  | follow dir name there _ _ ih =>
    exact .follow (hkeeps.dir dir) name (hkeeps.link there) (.inr rfl) (ih hgoal hdir)
  | @link links mode here piece target dir name there off =>
    rw [Place.goal, hkeeps.link there] at hgoal
    exact absurd (Option.some.inj hgoal).symm (hplain target)
  | @absent links mode here piece rest dir name none idle =>
    refine .into (hkeeps.dir dir) name hgoal hplain ?_
    by_cases hnil : rest = []
    · subst hnil
      exact .found hgoal
    · obtain ⟨mode', rfl⟩ := hdir here piece (by simp [hnil])
      exact walks_idle hgoal idle

end Growth

section Plain

/-- Neither a link nor a device. -/
def Plain : Entry → Prop
  | .file .. | .directory _ | .tool _ => True
  | .link _ | .device _ => False

def Below (top l : Location) : Prop := ∃ names, names ≠ [] ∧ l = top ++ names

/-- Where there is nothing but files and directories, and none of the pieces goes up, a walk goes
through directories along the names among the pieces. -/
theorem Walks.plain (h : Walks t last links here todo place)
    (hplain : ∀ l e, Below here l → t.at? l = some e → Plain e) (hup : [dot, dot] ∉ todo) :
    place.goal = here ++ todo.filter (· ∉ Path.signs) ∧
      ∀ ns, ns <+: todo.filter (· ∉ Path.signs) → ns ≠ todo.filter (· ∉ Path.signs) →
        ∃ mode, t.at? (here ++ ns) = some (.directory mode) := by
  have hinto {here : Location} {piece : Bytes} (l : Location) (h : Below (here ++ [piece]) l) :
      Below here l := by
    obtain ⟨names, hne, rfl⟩ := h
    exact ⟨piece :: names, by simp, by simp⟩
  induction h with
  | found there => exact ⟨by simp [Place.goal], fun ns hns hne => absurd (by simpa using hns) hne⟩
  | @stay links mode here piece rest place dir idle h ih =>
    have hsign : piece ∈ Path.signs := by rcases idle with rfl | rfl <;> decide
    rw [List.filter_cons_of_neg (by simpa using hsign)]
    exact ih hplain (List.not_mem_of_not_mem_cons hup)
  | up dir h ih => exact absurd List.mem_cons_self hup
  | @into links mode here piece rest place e dir name there plain h ih =>
    obtain ⟨hgoal, hway⟩ := ih (fun l e hl => hplain l e (hinto l hl))
      (List.not_mem_of_not_mem_cons hup)
    rw [List.filter_cons_of_pos (by simpa using name.1)]
    refine ⟨by rw [hgoal, List.append_assoc, List.singleton_append], fun ns hns hne => ?_⟩
    cases ns with
    | nil => exact ⟨mode, by rwa [List.append_nil]⟩
    | cons x ns =>
      obtain ⟨rfl, hrest⟩ := List.cons_prefix_cons.mp hns
      obtain ⟨mode', hmode⟩ := hway ns hrest fun heq => hne (heq ▸ rfl)
      exact ⟨mode', by rwa [List.append_assoc] at hmode⟩
  | @follow links mode here piece rest place target dir name there on h ih =>
    exact (hplain _ _ ⟨[piece], by simp, rfl⟩ there).elim
  | @link links mode here piece target dir name there off =>
    exact (hplain _ _ ⟨[piece], by simp, rfl⟩ there).elim
  | @absent links mode here piece rest dir name none idle =>
    have hrest : rest.filter (· ∉ Path.signs) = [] := by
      rw [List.filter_eq_nil_iff]
      intro p hp
      rw [idle p hp]
      decide
    rw [List.filter_cons_of_pos (by simpa using name.1), hrest]
    refine ⟨rfl, fun ns hns hne => ?_⟩
    cases ns with
    | nil => exact ⟨mode, by rwa [List.append_nil]⟩
    | cons x ns =>
      obtain ⟨rfl, hnil⟩ := List.cons_prefix_cons.mp hns
      exact absurd (congrArg _ (List.prefix_nil.mp hnil)) hne

end Plain

end FileTree

end SmokeBench.Machine
