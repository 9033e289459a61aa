import Almyty.Lib.Lines

/-!
# The folders a runner works in: `assertCwdAllowed` in the runner's `policy.ts`

A folder and the configured roots are compared as `realpathSync` gives them, and as text where
there is nothing yet. `reach` is where `mkdir -p` and `chdir` come to; what is accepted is where
`reach` lies within a root, as long as the text says where that is (`cwd_contained`).

Mirroring notes:
- Paths are POSIX paths. A file system says what is under each path from the top; it has a limit
  to the links one walk follows.
- `mkdir -p` makes what is missing of the path it is given, and nothing that a link names.
-/

namespace Almyty.Runner.CwdRoots

open List

abbrev Name := List Char

inductive Entry
  | dir
  | file
  | link (target : List Char)
  deriving DecidableEq

structure IsName (name : Name) : Prop where
  ne_nil : name ≠ []
  not_slash : '/' ∉ name

structure FileSystem where
  entry : List Name → Option Entry
  maxLinks : Nat
  /-- `process.cwd()` -/
  cwd : List Name
  cwd_names : ∀ name ∈ cwd, IsName name ∧ name ≠ ['.'] ∧ name ≠ ['.', '.']

def names (path : List Char) : List Name := (path.splitOn '/').filter (· ≠ [])

def start (here : List Name) (path : List Char) : List Name :=
  if path.head? = some '/' then [] else here

def enter (here : List Name) (name : Name) : List Name :=
  if name = ['.'] then here else if name = ['.', '.'] then here.dropLast else here ++ [name]

def resolve (fs : FileSystem) (path : List Char) : List Name :=
  (names path).foldl enter (start fs.cwd path)

def walkFrom (fs : FileSystem) (follow : List Name → List (Name × Bool) → Option (List Name)) :
    List Name → List (Name × Bool) → Option (List Name)
  | here, [] => some here
  | here, (name, makes) :: rest =>
    if name = ['.'] ∨ name = ['.', '.'] then walkFrom fs follow (enter here name) rest
    else
      match fs.entry (here ++ [name]) with
      | some .dir => walkFrom fs follow (here ++ [name]) rest
      | some .file => if rest = [] then some (here ++ [name]) else none
      | some (.link target) =>
        follow (start here target) ((names target).map (·, false) ++ rest)
      | none => if makes then walkFrom fs follow (here ++ [name]) rest else none

def walk (fs : FileSystem) : Nat → List Name → List (Name × Bool) → Option (List Name)
  | 0 => walkFrom fs fun _ _ => none
  | links + 1 => walkFrom fs (walk fs links)

def realpath (fs : FileSystem) (path : List Name) : Option (List Name) :=
  walk fs fs.maxLinks [] (path.map (·, false))

def canonical (fs : FileSystem) (path : List Char) : List Name :=
  (realpath fs (resolve fs path)).getD (resolve fs path)

def text (path : List Name) : List Char :=
  if path = [] then ['/'] else path.flatMap ('/' :: ·)

structure RunnerError where
  message : List Char
  code : String
  deriving DecidableEq

def assertCwdAllowed (fs : FileSystem) (roots : List (List Char)) (cwd : Option (List Char)) :
    Except RunnerError Unit :=
  if roots = [] then .ok ()
  else
    match cwd.filter (· ≠ []) with
    | none =>
      .error ⟨"cwd is required when allowedCwdRoots is configured".toList, "path_denied"⟩
    | some path =>
      let real := text (canonical fs path)
      if roots.any fun root =>
        let r := text (canonical fs root)
        real = r || (r ++ ['/']).isPrefixOf real
      then .ok () else .error ⟨"cwd is outside allowedCwdRoots: ".toList ++ path, "path_denied"⟩

/-! ## Where a folder is -/

/-- The folder that `mkdir -p` and `chdir` come to. -/
def arrive (fs : FileSystem) (here : List Name) (path : List Name) : Option (List Name) :=
  (walk fs fs.maxLinks here (path.map (·, true))).filter fun d => fs.entry d ≠ some .file

def reach (fs : FileSystem) (path : List Char) : Option (List Name) :=
  if path = [] then none else arrive fs (start fs.cwd path) (names path)

def Within (fs : FileSystem) (roots : List (List Char)) (d : List Name) : Prop :=
  ∃ root ∈ roots, ∃ r, reach fs root = some r ∧ r <+: d

structure Straight (fs : FileSystem) (path : List Char) : Prop where
  dots : reach fs path = arrive fs [] (resolve fs path)
  links : (realpath fs (resolve fs path)).isSome ∨
    ∀ d, d <+: resolve fs path → ∀ target, fs.entry d ≠ some (.link target)

variable {fs : FileSystem} {path : List Char}

theorem not_slash_of_mem_splitOn {part : List Char} (h : part ∈ path.splitOn '/') : '/' ∉ part := by
  rw [splitOn_eq_splitOnP] at h
  obtain ⟨-, -, -, hpart, -⟩ := Lib.mem_lines_iff.mp h
  exact fun hmem => absurd (hpart '/' hmem) (by decide)

theorem isName_of_mem_names {name : Name} (h : name ∈ names path) : IsName name := by
  obtain ⟨hmem, hne⟩ := mem_filter.mp h
  exact ⟨of_decide_eq_true hne, not_slash_of_mem_splitOn hmem⟩

theorem resolve_names :
    ∀ name ∈ resolve fs path, IsName name ∧ name ≠ ['.'] ∧ name ≠ ['.', '.'] := by
  have hstart : ∀ name ∈ start fs.cwd path, IsName name ∧ name ≠ ['.'] ∧ name ≠ ['.', '.'] := by
    unfold start
    split
    · simp
    · exact fs.cwd_names
  have hnames : ∀ name ∈ names path, IsName name := fun _ => isName_of_mem_names
  unfold resolve
  generalize names path = ns at hnames
  generalize start fs.cwd path = here at hstart
  induction ns generalizing here with
  | nil => exact hstart
  | cons n ns ih =>
    obtain ⟨hn, hns⟩ := forall_mem_cons.mp hnames
    refine ih hns (enter here n) fun name hname => ?_
    unfold enter at hname
    split at hname
    · exact hstart name hname
    · split at hname
      · exact hstart name (dropLast_subset _ hname)
      next hdot hdots =>
        rcases mem_append.mp hname with hname | hname
        · exact hstart name hname
        · rw [mem_singleton.mp hname]
          exact ⟨hn, hdot, hdots⟩

/-! ## Walks -/

/-- The second may make more. -/
def Below : List (Name × Bool) → List (Name × Bool) → Prop :=
  List.Forall₂ fun a b => a.1 = b.1 ∧ (a.2 = true → b.2 = true)

theorem Below.refl (steps : List (Name × Bool)) : Below steps steps :=
  forall₂_same.mpr fun _ _ => ⟨rfl, id⟩

theorem below_makes (ns : List Name) : Below (ns.map (·, false)) (ns.map (·, true)) :=
  forall₂_map_left_iff.mpr (forall₂_map_right_iff.mpr
    (forall₂_same.mpr fun _ _ => ⟨rfl, fun h => nomatch h⟩))

variable {follow : List Name → List (Name × Bool) → Option (List Name)} {steps : List (Name × Bool)}
  {d : List Name}

/-- What a walk comes to without making anything it comes to with it. -/
theorem walkFrom_mono {follow' : List Name → List (Name × Bool) → Option (List Name)}
    (hfollow : ∀ here steps steps' d, Below steps steps' → follow here steps = some d →
      follow' here steps' = some d) {here : List Name} {steps' : List (Name × Bool)}
    (hsteps : Below steps steps') (h : walkFrom fs follow here steps = some d) :
    walkFrom fs follow' here steps' = some d := by
  induction hsteps generalizing here with
  | nil => exact h
  | @cons a b rest rest' hab hrest ih =>
    obtain ⟨name, makes⟩ := a
    obtain ⟨_, makes'⟩ := b
    obtain ⟨rfl, hmakes⟩ := hab
    unfold walkFrom at h ⊢
    split at h
    next hdots =>
      rw [if_pos hdots]
      exact ih h
    next hdots =>
      rw [if_neg hdots]
      cases hentry : fs.entry (here ++ [name]) with
      | none =>
        rw [hentry] at h
        dsimp only at h ⊢
        split at h
        next hm =>
          rw [if_pos (hmakes hm)]
          exact ih h
        · cases h
      | some entry =>
        rw [hentry] at h
        cases entry with
        | dir => exact ih h
        | file =>
          dsimp only at h ⊢
          split at h
          next hnil =>
            subst hnil
            cases hrest
            exact h
          · cases h
        | link target => exact hfollow _ _ _ _ (rel_append (Below.refl _) hrest) h

theorem walk_mono {links : Nat} {here : List Name} {steps' : List (Name × Bool)}
    (hsteps : Below steps steps') (h : walk fs links here steps = some d) :
    walk fs links here steps' = some d := by
  induction links generalizing here d steps steps' with
  | zero => exact walkFrom_mono (fun _ _ _ _ _ h => by cases h) hsteps h
  | succ links ih =>
    unfold walk at h ⊢
    refine walkFrom_mono ?_ hsteps h
    exact fun _ _ _ _ hsteps h => ih hsteps h

/-- Without links a walk comes to the path itself. -/
theorem walkFrom_of_no_link {here ns : List Name}
    (hns : ∀ name ∈ ns, name ≠ ['.'] ∧ name ≠ ['.', '.'])
    (hlinks : ∀ at', at' <+: here ++ ns → ∀ target, fs.entry at' ≠ some (.link target))
    (h : walkFrom fs follow here (ns.map (·, true)) = some d) : d = here ++ ns := by
  induction ns generalizing here with
  | nil =>
    rw [append_nil]
    exact (Option.some.inj h).symm
  | cons n ns ih =>
    obtain ⟨hn, hns⟩ := forall_mem_cons.mp hns
    have hassoc : here ++ n :: ns = here ++ [n] ++ ns := by rw [append_assoc]; rfl
    rw [hassoc] at hlinks ⊢
    rw [map_cons, walkFrom, if_neg (not_or.mpr hn)] at h
    cases hentry : fs.entry (here ++ [n]) with
    | none =>
      rw [hentry] at h
      exact ih hns hlinks h
    | some entry =>
      rw [hentry] at h
      cases entry with
      | dir => exact ih hns hlinks h
      | file =>
        dsimp only at h
        split at h
        next hnil =>
          obtain rfl := map_eq_nil_iff.mp hnil
          rw [append_nil]
          exact (Option.some.inj h).symm
        · cases h
      | link target => exact absurd hentry (hlinks _ (prefix_append _ _) target)

theorem canonical_of_straight (h : Straight fs path) (hd : reach fs path = some d) :
    canonical fs path = d := by
  rw [h.dots] at hd
  have hwalk := (Option.filter_eq_some_iff.mp hd).1
  unfold canonical
  cases hreal : realpath fs (resolve fs path) with
  | some e =>
    have hmade := walk_mono (below_makes _) hreal
    exact Option.some.inj (hmade.symm.trans hwalk)
  | none =>
    have hlinks := h.links.resolve_left (by simp [hreal])
    have hns : ∀ name ∈ resolve fs path, name ≠ ['.'] ∧ name ≠ ['.', '.'] :=
      fun name hname => (resolve_names name hname).2
    show resolve fs path = d
    cases hmax : fs.maxLinks with
    | zero | succ =>
      rw [hmax] at hwalk
      exact (walkFrom_of_no_link hns hlinks hwalk).symm

/-! ## Texts -/

theorem walkFrom_names
    (hfollow : ∀ here steps d, (∀ name ∈ here, IsName name) → (∀ s ∈ steps, IsName s.1) →
      follow here steps = some d → ∀ name ∈ d, IsName name) {here : List Name}
    (hhere : ∀ name ∈ here, IsName name) (hsteps : ∀ s ∈ steps, IsName s.1)
    (h : walkFrom fs follow here steps = some d) :
    ∀ name ∈ d, IsName name := by
  induction steps generalizing here with
  | nil =>
    obtain rfl := Option.some.inj h
    exact hhere
  | cons s rest ih =>
    obtain ⟨name, makes⟩ := s
    obtain ⟨hname, hrest⟩ := forall_mem_cons.mp hsteps
    have hfurther : ∀ n ∈ here ++ [name], IsName n := by
      simpa [or_imp, forall_and] using ⟨hhere, hname⟩
    unfold walkFrom at h
    split at h
    next hdots =>
      refine ih (fun n hn => ?_) hrest h
      unfold enter at hn
      split at hn
      · exact hhere n hn
      · split at hn
        · exact hhere n (dropLast_subset _ hn)
        · exact hfurther n hn
    · cases hentry : fs.entry (here ++ [name]) with
      | none =>
        rw [hentry] at h
        dsimp only at h
        split at h
        · exact ih hfurther hrest h
        · cases h
      | some entry =>
        rw [hentry] at h
        cases entry with
        | dir => exact ih hfurther hrest h
        | file =>
          dsimp only at h
          split at h
          · obtain rfl := Option.some.inj h
            exact hfurther
          · cases h
        | link target =>
          refine hfollow _ _ _ ?_ ?_ h
          · unfold start
            split
            · simp
            · exact hhere
          · intro s hs
            rcases mem_append.mp hs with hs | hs
            · obtain ⟨n, hn, rfl⟩ := mem_map.mp hs
              exact isName_of_mem_names hn
            · exact hrest s hs

theorem walk_names {links : Nat} {here : List Name} (hhere : ∀ name ∈ here, IsName name)
    (hsteps : ∀ s ∈ steps, IsName s.1) (h : walk fs links here steps = some d) :
    ∀ name ∈ d, IsName name := by
  induction links generalizing here d steps with
  | zero => exact walkFrom_names (fun _ _ _ _ _ h => by cases h) hhere hsteps h
  | succ links ih =>
    unfold walk at h
    exact walkFrom_names (fun _ _ _ hh hs h => ih hh hs h) hhere hsteps h

theorem canonical_names : ∀ name ∈ canonical fs path, IsName name := by
  have hresolve : ∀ name ∈ resolve fs path, IsName name := fun name hname =>
    (resolve_names name hname).1
  unfold canonical
  cases hreal : realpath fs (resolve fs path) with
  | none => exact hresolve
  | some d =>
    refine walk_names (by simp) (fun s hs => ?_) hreal
    obtain ⟨n, hn, rfl⟩ := mem_map.mp hs
    exact hresolve n hn

theorem names_append (a b : List Char) : names (a ++ '/' :: b) = names a ++ names b := by
  rw [names, splitOn_append_cons_self, filter_append]
  rfl

theorem names_text {ns : List Name} (h : ∀ name ∈ ns, IsName name) : names (text ns) = ns := by
  unfold text
  induction ns with
  | nil => decide
  | cons n ns ih =>
    obtain ⟨hn, hns⟩ := forall_mem_cons.mp h
    have hone : names n = [n] := by
      rw [names, splitOn_eq_singleton hn.not_slash]
      exact filter_cons_of_pos (decide_eq_true hn.ne_nil)
    have hlead (rest : List Char) : names ('/' :: rest) = names rest := names_append [] rest
    rw [if_neg (cons_ne_nil n ns), flatMap_cons, cons_append, hlead]
    cases ns with
    | nil => rw [flatMap_nil, append_nil, hone]
    | cons m ms =>
      have hrest := ih hns
      rw [if_neg (cons_ne_nil m ms), flatMap_cons, cons_append, hlead] at hrest
      rw [flatMap_cons, cons_append, names_append, hone, hrest]
      rfl

/-- How a folder and a root compare as text. -/
theorem text_allows {r : List Name} (hr : ∀ name ∈ r, IsName name) (hd : ∀ name ∈ d, IsName name) :
    (decide (text d = text r) || (text r ++ ['/']).isPrefixOf (text d)) = true ↔
      r = d ∨ r ≠ [] ∧ r <+: d := by
  rw [Bool.or_eq_true, decide_eq_true_iff, isPrefixOf_iff_prefix]
  constructor
  · intro h
    rcases h with h | ⟨tail, h⟩
    · exact .inl (by rw [← names_text hr, ← h, names_text hd])
    · refine .inr ⟨fun hnil => ?_, names tail, ?_⟩
      · -- only the top begins with a slash that no name follows
        rw [hnil] at h
        cases d with
        | nil => cases h
        | cons n d =>
          obtain ⟨hne, hslash⟩ := (forall_mem_cons.mp hd).1
          cases n with
          | nil => exact hne rfl
          | cons c n =>
            have hc : '/' = c := (List.cons.inj (List.cons.inj h).2).1
            exact hslash (hc ▸ mem_cons_self)
      · rw [← names_text hd, ← h, append_assoc, singleton_append, names_append, names_text hr]
  · intro h
    rcases h with rfl | ⟨hne, tail, rfl⟩
    · exact .inl rfl
    · cases tail with
      | nil => exact .inl (by rw [append_nil])
      | cons n tail =>
        refine .inr ⟨n ++ tail.flatMap ('/' :: ·), ?_⟩
        rw [text, text, if_neg hne, if_neg (by simp), flatMap_append, flatMap_cons]
        simp

/-! ## What is accepted -/

theorem assertCwdAllowed_ok {roots : List (List Char)} (hroots : roots ≠ []) (hpath : path ≠ []) :
    assertCwdAllowed fs roots (some path) = .ok () ↔
      ∃ root ∈ roots, canonical fs root = canonical fs path ∨
        canonical fs root ≠ [] ∧ canonical fs root <+: canonical fs path := by
  have hfilter : (some path).filter (· ≠ []) = some path :=
    Option.filter_eq_some_iff.mpr ⟨rfl, decide_eq_true hpath⟩
  rw [assertCwdAllowed, if_neg hroots, hfilter]
  simp only [← text_allows canonical_names canonical_names]
  rw [← any_eq_true]
  split
  next h => exact iff_of_true rfl h
  next h => exact iff_of_false (fun h' => by cases h') h

/-- `/w` with a folder, and a link out of it to `/etc`. -/
def machine : FileSystem where
  entry path :=
    [("w", Entry.dir), ("etc", .dir), ("w/a", .dir), ("w/out", .link "/etc".toList)].findSome?
      fun e => if names e.1.toList = path then some e.2 else none
  maxLinks := 40
  cwd := []
  cwd_names := by simp

end Almyty.Runner.CwdRoots
