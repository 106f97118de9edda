import Leshiy.Lib.Str
import Mathlib.Logic.Function.Basic

/-!
# Files, directories and who may change them

A tree of inodes with owners and modes, and what a user other than root can do to it: directories are changed
by who may write them, and from a sticky one only the owner of an entry or of the directory takes it away.
Permission to search a directory or to read is not asked for, so that users here can do more than they can.

What such users cannot change is found by paths of the same names: `lookup_of_closed` and `node_of_closed`.
-/

namespace Leshiy.Lib.Posix

abbrev Ino := Nat

abbrev User := Nat

abbrev Path := List Str

inductive Body where
  | file (data : List UInt8)
  | dir (entries : Str → Option Ino)
  | symlink (absolute : Bool) (target : Path)

structure Node where
  owner : User
  group : Nat
  mode : Nat
  body : Body

abbrev FileSystem := Ino → Option Node

def root : Ino := 0

def isDir (x : Node) : Bool :=
  match x.body with
  | .dir _ => true
  | _ => false

def isSymlink (x : Node) : Bool :=
  match x.body with
  | .symlink .. => true
  | _ => false

/-- The entry of a directory. -/
def child (fs : FileSystem) (d : Ino) (n : Str) : Option Ino :=
  match (fs d).map Node.body with
  | some (.dir entries) => entries n
  | _ => none

/-- What the names lead to from the root, through directories only. -/
def lookup (fs : FileSystem) (p : Path) : Option Ino := p.foldlM (child fs) root

/-- What is left of a path to follow after the canonical part of it. -/
def follow (fs : FileSystem) : Nat → Path → Path → Option Path
  | _, done, [] => some done
  | 0, _, _ :: _ => none
  | limit + 1, done, n :: p =>
    if n = ['.'] then follow fs limit done p
    else if n = ['.', '.'] then follow fs limit done.dropLast p
    else
      match (lookup fs (done ++ [n])).bind fs with
      | none => none
      | some x =>
        match x.body with
        | .symlink absolute target => follow fs limit (if absolute then [] else done) (target ++ p)
        | .dir _ => follow fs limit (done ++ [n]) p
        | .file _ => if p = [] then some (done ++ [n]) else none

/-- `realpath`. `limit` bounds what is followed. -/
def canonicalize (limit : Nat) (fs : FileSystem) (p : Path) : Option Path :=
  if (fs root).any isDir then follow fs limit [] p else none

/-- `stat`. -/
def metadata (limit : Nat) (fs : FileSystem) (p : Path) : Option Node :=
  ((canonicalize limit fs p).bind (lookup fs)).bind fs

/-! ## What a user can do -/

structure Cred where
  user : User
  groups : List Nat

def mayWrite (c : Cred) (x : Node) : Prop :=
  if x.owner = c.user then x.mode &&& 0o200 ≠ 0
  else if x.group ∈ c.groups then x.mode &&& 0o020 ≠ 0
  else x.mode &&& 0o002 ≠ 0

/-- The entry of `y` may be taken out of the directory `x`. -/
def mayRemove (c : Cred) (x y : Node) : Prop :=
  mayWrite c x ∧ (x.mode &&& 0o1000 = 0 ∨ x.owner = c.user ∨ y.owner = c.user)

/-- Only a directory has entries. -/
def Body.put (n : Str) (v : Option Ino) : Body → Body
  | .dir entries => .dir (Function.update entries n v)
  | b => b

def setEntry (fs : FileSystem) (d : Ino) (n : Str) (v : Option Ino) : FileSystem :=
  Function.update fs d ((fs d).map fun x => { x with body := x.body.put n v })

/-- One change by a user. -/
inductive Acts (c : Cred) (fs : FileSystem) : FileSystem → Prop
  | write {i : Ino} {x : Node} {old data : List UInt8} (hx : fs i = some x) (hfile : x.body = .file old)
      (hmay : mayWrite c x) : Acts c fs (Function.update fs i (some { x with body := .file data }))
  | setattr {i : Ino} {x : Node} {mode group : Nat} (hx : fs i = some x) (howner : x.owner = c.user) :
      Acts c fs (Function.update fs i (some { x with mode, group }))
  | create {d i : Ino} {n : Str} {x y : Node} (hd : fs d = some x) (hmay : mayWrite c x)
      (hfree : child fs d n = none) (hnew : fs i = none) (howner : y.owner = c.user) :
      Acts c fs (setEntry (Function.update fs i (some y)) d n (some i))
  | link {d i : Ino} {n : Str} {x : Node} (hd : fs d = some x) (hmay : mayWrite c x)
      (hfree : child fs d n = none) : Acts c fs (setEntry fs d n (some i))
  | remove {d i : Ino} {n : Str} {x y : Node} (hd : fs d = some x) (hi : child fs d n = some i)
      (hy : fs i = some y) (hmay : mayRemove c x y) : Acts c fs (setEntry fs d n none)
  | rename {d d' i : Ino} {n n' : Str} {x x' y : Node} (hd : fs d = some x) (hi : child fs d n = some i)
      (hy : fs i = some y) (hmay : mayRemove c x y) (hd' : fs d' = some x') (hmay' : mayWrite c x')
      (hover : ∀ j z, child fs d' n' = some j → fs j = some z → mayRemove c x' z) :
      Acts c fs (setEntry (setEntry fs d n none) d' n' (some i))

/-- What the users of a set can make of a file system. -/
inductive Reach (U : User → Prop) (fs : FileSystem) : FileSystem → Prop
  | refl : Reach U fs fs
  | step {fs' fs'' : FileSystem} {c : Cred} (h : Reach U fs fs') (hc : U c.user) (hact : Acts c fs' fs'') :
      Reach U fs fs''

/-- Who owns neither the directory nor an entry does not take the entry away. -/
def Closed (x : Node) : Prop := x.mode &&& 0o022 = 0 ∨ x.mode &&& 0o1000 ≠ 0

section

variable {U : User → Prop} {fs fs' fs'' : FileSystem} {c : Cred} {d i j : Ino} {n : Str} {x y z : Node}
  {p done : Path} {limit : Nat} {v : Option Ino}

theorem Reach.trans (h : Reach U fs fs') (h' : Reach U fs' fs'') : Reach U fs fs'' := by
  induction h' with
  | refl => exact h
  | step _ hc hact ih => exact ih.step hc hact

/-! ## Permissions -/

theorem not_mayWrite (howner : x.owner ≠ c.user) (hmode : x.mode &&& 0o022 = 0) : ¬mayWrite c x := by
  have hgroup : x.mode &&& 0o020 = 0 := by
    have : x.mode &&& 0o020 = x.mode &&& 0o022 &&& 0o020 := by simp [Nat.and_assoc]
    rw [this, hmode, Nat.zero_and]
  have hother : x.mode &&& 0o002 = 0 := by
    have : x.mode &&& 0o002 = x.mode &&& 0o022 &&& 0o002 := by simp [Nat.and_assoc]
    rw [this, hmode, Nat.zero_and]
  unfold mayWrite
  rw [if_neg howner, hgroup, hother]
  simp

theorem not_mayRemove (howner : x.owner ≠ c.user) (howner' : y.owner ≠ c.user) (hclosed : Closed x) :
    ¬mayRemove c x y := by
  rintro ⟨hmay, hsticky⟩
  rcases hclosed with hmode | hmode
  · exact not_mayWrite howner hmode hmay
  · rcases hsticky with h | h | h
    · exact hmode h
    · exact howner h
    · exact howner' h

/-! ## What one change leaves -/

/-- All but the contents. -/
structure Alike (x y : Node) : Prop where
  owner : y.owner = x.owner
  group : y.group = x.group
  mode : y.mode = x.mode
  dir : isDir y = isDir x
  symlink : isSymlink y = isSymlink x

theorem Alike.refl (x : Node) : Alike x x := ⟨rfl, rfl, rfl, rfl, rfl⟩

theorem Alike.trans (h : Alike x y) (h' : Alike y z) : Alike x z where
  owner := h'.owner.trans h.owner
  group := h'.group.trans h.group
  mode := h'.mode.trans h.mode
  dir := h'.dir.trans h.dir
  symlink := h'.symlink.trans h.symlink

theorem put_alike (x : Node) : Alike x { x with body := x.body.put n v } where
  owner := rfl
  group := rfl
  mode := rfl
  dir := by cases hbody : x.body <;> simp [isDir, Body.put, hbody]
  symlink := by cases hbody : x.body <;> simp [isSymlink, Body.put, hbody]

theorem setEntry_alike (hx : fs i = some x) : ∃ x', setEntry fs d n v i = some x' ∧ Alike x x' := by
  by_cases hi : i = d
  · subst hi
    exact ⟨{ x with body := x.body.put n v }, by simp [setEntry, hx], put_alike x⟩
  · exact ⟨x, by simp [setEntry, hi, hx], .refl x⟩

theorem setEntry_of_not_dir (hx : fs i = some x) (hdir : isDir x = false) : setEntry fs d n v i = some x := by
  by_cases hi : i = d
  · subst hi
    obtain ⟨owner, group, mode, body⟩ := x
    cases body with
    | dir => cases hdir
    | file => simp [setEntry, hx, Body.put]
    | symlink => simp [setEntry, hx, Body.put]
  · simp [setEntry, hi, hx]

theorem child_setEntry {d' : Ino} {n' : Str} (hne : ¬(d' = d ∧ n' = n)) :
    child (setEntry fs d n v) d' n' = child fs d' n' := by
  by_cases hd : d' = d
  · subst hd
    have hn : n' ≠ n := fun hn => hne ⟨rfl, hn⟩
    cases hx : fs d' with
    | none => simp [child, setEntry, hx]
    | some x => cases hbody : x.body <;> simp [child, setEntry, hx, Body.put, hbody, hn]
  · simp [child, setEntry, hd]

theorem child_update {w : Option Node} (hi : d ≠ i) :
    child (Function.update fs i w) d n = child fs d n := by
  simp [child, hi]

theorem isDir_of_child (h : child fs d n = some i) : ∃ x, fs d = some x ∧ isDir x = true := by
  unfold child at h
  cases hd : fs d with
  | none => simp [hd] at h
  | some x =>
    refine ⟨x, rfl, ?_⟩
    cases hbody : x.body <;> simp_all [isDir]

theorem Acts.alike (hact : Acts c fs fs') (hx : fs i = some x) (howner : x.owner ≠ c.user) :
    ∃ x', fs' i = some x' ∧ Alike x x' := by
  cases hact with
  | @write i' y old data hy hfile =>
    by_cases hi : i = i'
    · subst hi
      obtain rfl := Option.some.inj (hx.symm.trans hy)
      refine ⟨_, Function.update_self i _ fs, rfl, rfl, rfl, ?_, ?_⟩
      · simp [isDir, hfile]
      · simp [isSymlink, hfile]
    · exact ⟨x, by rwa [Function.update_of_ne hi], .refl x⟩
  | @setattr i' y mode group hy howner' =>
    have hi : i ≠ i' := by
      rintro rfl
      obtain rfl := Option.some.inj (hx.symm.trans hy)
      exact howner howner'
    exact ⟨x, by rwa [Function.update_of_ne hi], .refl x⟩
  | @create d i' n _ y _ _ _ hnew =>
    have hi : i ≠ i' := by
      rintro rfl
      rw [hx] at hnew
      cases hnew
    exact setEntry_alike (by rwa [Function.update_of_ne hi])
  | link => exact setEntry_alike hx
  | remove => exact setEntry_alike hx
  | rename =>
    obtain ⟨x', hx', halike⟩ := setEntry_alike hx
    obtain ⟨x'', hx'', halike'⟩ := setEntry_alike hx'
    exact ⟨x'', hx'', halike.trans halike'⟩

/-- An entry stays where neither it nor its directory belongs to the user. -/
theorem Acts.child (hact : Acts c fs fs') (hd : fs d = some x) (howner : x.owner ≠ c.user)
    (hclosed : Closed x) (hi : Posix.child fs d n = some i) (hy : fs i = some y)
    (howner' : y.owner ≠ c.user) : Posix.child fs' d n = some i := by
  have hdir : isDir x = true := by
    obtain ⟨x', hx', hdir⟩ := isDir_of_child hi
    rwa [Option.some.inj (hd.symm.trans hx')]
  cases hact with
  | @write i' z old data hz hfile =>
    have hne : d ≠ i' := by
      rintro rfl
      obtain rfl := Option.some.inj (hd.symm.trans hz)
      simp [isDir, hfile] at hdir
    rwa [child_update hne]
  | @setattr i' z mode group hz hzowner =>
    have hne : d ≠ i' := by
      rintro rfl
      obtain rfl := Option.some.inj (hd.symm.trans hz)
      exact howner hzowner
    rwa [child_update hne]
  | @create d' i' n' z y' _ _ hfree hnew =>
    have hne : d ≠ i' := by
      rintro rfl
      rw [hd] at hnew
      cases hnew
    rw [child_setEntry, child_update hne, hi]
    rintro ⟨rfl, rfl⟩
    rw [hi] at hfree
    cases hfree
  | @link d' i' n' z _ _ hfree =>
    rw [child_setEntry, hi]
    rintro ⟨rfl, rfl⟩
    rw [hi] at hfree
    cases hfree
  | @remove d' i' n' z z' hz hi' hz' hmay =>
    rw [child_setEntry, hi]
    rintro ⟨rfl, rfl⟩
    obtain rfl := Option.some.inj (hi.symm.trans hi')
    obtain rfl := Option.some.inj (hd.symm.trans hz)
    obtain rfl := Option.some.inj (hy.symm.trans hz')
    exact not_mayRemove howner howner' hclosed hmay
  | @rename d' d'' i' n' n'' z z' w hz hi' hw hmay hz' _ hover =>
    rw [child_setEntry, child_setEntry, hi]
    · rintro ⟨rfl, rfl⟩
      obtain rfl := Option.some.inj (hi.symm.trans hi')
      obtain rfl := Option.some.inj (hd.symm.trans hz)
      obtain rfl := Option.some.inj (hy.symm.trans hw)
      exact not_mayRemove howner howner' hclosed hmay
    · rintro ⟨rfl, rfl⟩
      obtain rfl := Option.some.inj (hd.symm.trans hz')
      exact not_mayRemove howner howner' hclosed (hover i y hi hy)

/-- A file that its owner alone may write. -/
theorem Acts.node (hact : Acts c fs fs') (hx : fs i = some x) (howner : x.owner ≠ c.user)
    (hmode : x.mode &&& 0o022 = 0) (hdir : isDir x = false) : fs' i = some x := by
  cases hact with
  | @write i' y old data hy hfile hmay =>
    have hi : i ≠ i' := by
      rintro rfl
      obtain rfl := Option.some.inj (hx.symm.trans hy)
      exact not_mayWrite howner hmode hmay
    rwa [Function.update_of_ne hi]
  | @setattr i' y mode group hy howner' =>
    have hi : i ≠ i' := by
      rintro rfl
      obtain rfl := Option.some.inj (hx.symm.trans hy)
      exact howner howner'
    rwa [Function.update_of_ne hi]
  | @create d i' n _ y _ _ _ hnew =>
    have hi : i ≠ i' := by
      rintro rfl
      rw [hx] at hnew
      cases hnew
    exact setEntry_of_not_dir (by rwa [Function.update_of_ne hi]) hdir
  | link => exact setEntry_of_not_dir hx hdir
  | remove => exact setEntry_of_not_dir hx hdir
  | rename => exact setEntry_of_not_dir (setEntry_of_not_dir hx hdir) hdir

/-! ## What no change by these users touches -/

theorem Reach.alike (h : Reach U fs fs') (hx : fs i = some x) (howner : ¬U x.owner) :
    ∃ x', fs' i = some x' ∧ Alike x x' := by
  induction h with
  | refl => exact ⟨x, hx, .refl x⟩
  | @step fs' fs'' c _ hc hact ih =>
    obtain ⟨x', hx', halike⟩ := ih
    have hne : x'.owner ≠ c.user := by
      rw [halike.owner]
      rintro heq
      exact howner (heq ▸ hc)
    obtain ⟨x'', hx'', halike'⟩ := hact.alike hx' hne
    exact ⟨x'', hx'', halike.trans halike'⟩

theorem Closed.alike (h : Alike x y) : Closed y ↔ Closed x := by
  unfold Closed
  rw [h.mode]

theorem Reach.child (h : Reach U fs fs') (hd : fs d = some x) (howner : ¬U x.owner) (hclosed : Closed x)
    (hi : Posix.child fs d n = some i) (hy : fs i = some y) (howner' : ¬U y.owner) :
    Posix.child fs' d n = some i := by
  induction h with
  | refl => exact hi
  | @step fs' fs'' c h hc hact ih =>
    obtain ⟨x', hx', halike⟩ := h.alike hd howner
    obtain ⟨y', hy', halike'⟩ := h.alike hy howner'
    refine hact.child hx' ?_ ((Closed.alike halike).mpr hclosed) ih hy' ?_
    · rw [halike.owner]
      exact fun heq => howner (heq ▸ hc)
    · rw [halike'.owner]
      exact fun heq => howner' (heq ▸ hc)

theorem Reach.node (h : Reach U fs fs') (hx : fs i = some x) (howner : ¬U x.owner)
    (hmode : x.mode &&& 0o022 = 0) (hdir : isDir x = false) : fs' i = some x := by
  induction h with
  | refl => exact hx
  | step _ hc hact ih => exact hact.node ih (fun heq => howner (heq ▸ hc)) hmode hdir

/-! ## Paths -/

/-- What the names lead to is there, and is not a symlink. -/
def Found (fs : FileSystem) (p : Path) (i : Ino) (x : Node) : Prop :=
  lookup fs p = some i ∧ fs i = some x ∧ isSymlink x = false

theorem lookup_snoc (p : Path) (n : Str) : lookup fs (p ++ [n]) = (lookup fs p).bind fun d => child fs d n := by
  unfold lookup
  rw [List.foldlM_append]
  cases p.foldlM (child fs) root <;> simp

theorem not_symlink_of_dir (h : isDir x = true) : isSymlink x = false := by
  unfold isDir at h
  unfold isSymlink
  split at h
  · next hbody => rw [hbody]
  · cases h

theorem found_root (h : (fs root).any isDir) (hx : fs root = some x) : Found fs [] root x := by
  obtain ⟨y, hy, hdir⟩ := (Option.any_eq_true _ _).mp h
  rw [← Option.some.inj (hx.symm.trans hy)] at hdir
  exact ⟨rfl, hx, not_symlink_of_dir hdir⟩

/-- On the way to an entry there is its directory. -/
theorem found_of_snoc (h : lookup fs (p ++ [n]) = some i) :
    ∃ d x, Found fs p d x ∧ isDir x = true ∧ child fs d n = some i := by
  rw [lookup_snoc] at h
  obtain ⟨d, hd, hchild⟩ := Option.bind_eq_some_iff.mp h
  obtain ⟨x, hx, hdir⟩ := isDir_of_child hchild
  exact ⟨d, x, ⟨hd, hx, not_symlink_of_dir hdir⟩, hdir, hchild⟩

/-- On the way to what is found there are directories only. -/
theorem found_above {q : Path} (hq : q ≠ []) (h : lookup fs (p ++ q) = some i) :
    ∃ d x, Found fs p d x ∧ isDir x = true := by
  induction q using List.reverseRecOn generalizing i with
  | nil => exact absurd rfl hq
  | append_singleton q n ih =>
    rw [← List.append_assoc] at h
    obtain ⟨d, x, hfound, hdir, -⟩ := found_of_snoc h
    by_cases hnil : q = []
    · subst hnil
      rw [List.append_nil] at hfound
      exact ⟨d, x, hfound, hdir⟩
    · exact ih hnil hfound.1

/-- `realpath` leads to what it names, which is not a symlink. -/
theorem found_of_follow {q : Path} (hdone : ∃ i x, Found fs done i x) (h : follow fs limit done p = some q) :
    ∃ i x, Found fs q i x := by
  induction limit generalizing done p with
  | zero =>
    cases p with
    | nil =>
      cases h
      exact hdone
    | cons => cases h
  | succ limit ih =>
    cases p with
    | nil =>
      cases h
      exact hdone
    | cons n p =>
      rw [follow] at h
      split at h
      · exact ih hdone h
      split at h
      · refine ih ?_ h
        obtain rfl | ⟨front, m, rfl⟩ := List.eq_nil_or_concat done
        · exact hdone
        · obtain ⟨i, x, hfound⟩ := hdone
          obtain ⟨d, y, hfound', -⟩ := found_of_snoc (List.concat_eq_append ▸ hfound.1)
          rw [List.concat_eq_append, List.dropLast_concat]
          exact ⟨d, y, hfound'⟩
      split at h
      · cases h
      next x hx =>
      obtain ⟨i, hi, hnode⟩ := Option.bind_eq_some_iff.mp hx
      split at h
      · next absolute target hbody =>
        refine ih ?_ h
        cases absolute with
        | true =>
          -- the root is a directory, as the way to the symlink begins there
          obtain ⟨d, y, hroot, -⟩ := @found_above fs i [] (done ++ [n]) (by simp) hi
          exact ⟨d, y, hroot⟩
        | false => exact hdone
      · next entries hbody => exact ih ⟨i, x, hi, hnode, by simp [isSymlink, hbody]⟩ h
      · next data hbody =>
        split at h
        · cases h
          exact ⟨i, x, hi, hnode, by simp [isSymlink, hbody]⟩
        · cases h

theorem found_of_canonicalize {q : Path} (h : canonicalize limit fs p = some q) : ∃ i x, Found fs q i x := by
  unfold canonicalize at h
  split at h
  · next hroot =>
    obtain ⟨x, hx, hdir⟩ := (Option.any_eq_true _ _).mp hroot
    exact found_of_follow ⟨root, x, rfl, hx, not_symlink_of_dir hdir⟩ h
  · cases h

theorem root_dir_of_canonicalize {q : Path} (h : canonicalize limit fs p = some q) :
    (fs root).any isDir := by
  unfold canonicalize at h
  split at h
  · next hroot => exact hroot
  · cases h

/-- A path as `realpath` gives it. -/
def Canonical (limit : Nat) (q : Path) : Prop :=
  q.length ≤ limit ∧ ∀ n ∈ q, n ≠ ['.'] ∧ n ≠ ['.', '.']

theorem Canonical.prefix_of {q : Path} (h : Canonical limit (p ++ q)) : Canonical limit p :=
  ⟨(List.length_append ▸ Nat.le_add_right _ _ : p.length ≤ (p ++ q).length).trans h.1,
    fun n hn => h.2 n (List.mem_append_left q hn)⟩

theorem canonical_of_follow {q : Path} (hdone : ∀ n ∈ done, n ≠ ['.'] ∧ n ≠ ['.', '.'])
    (h : follow fs limit done p = some q) :
    q.length ≤ done.length + limit ∧ ∀ n ∈ q, n ≠ ['.'] ∧ n ≠ ['.', '.'] := by
  induction limit generalizing done p with
  | zero =>
    cases p with
    | nil =>
      cases h
      exact ⟨Nat.le_refl _, hdone⟩
    | cons => cases h
  | succ limit ih =>
    cases p with
    | nil =>
      cases h
      exact ⟨Nat.le_add_right _ _, hdone⟩
    | cons n p =>
      rw [follow] at h
      split at h
      · obtain ⟨hlen, hnames⟩ := ih hdone h
        exact ⟨by omega, hnames⟩
      next hdot =>
      split at h
      · obtain ⟨hlen, hnames⟩ := ih (fun m hm => hdone m (List.dropLast_subset done hm)) h
        rw [List.length_dropLast] at hlen
        exact ⟨by omega, hnames⟩
      next hdots =>
      have hmore : ∀ m ∈ done ++ [n], m ≠ ['.'] ∧ m ≠ ['.', '.'] := by
        intro m hm
        rcases List.mem_append.mp hm with hm | hm
        · exact hdone m hm
        · rw [List.mem_singleton.mp hm]
          exact ⟨hdot, hdots⟩
      split at h
      · cases h
      split at h
      · next absolute target _ =>
        have hstart : ∀ m ∈ (if absolute then [] else done : Path), m ≠ ['.'] ∧ m ≠ ['.', '.'] := by
          cases absolute
          · exact hdone
          · exact fun m hm => absurd hm List.not_mem_nil
        have hle : (if absolute then [] else done : Path).length ≤ done.length := by
          cases absolute <;> simp
        obtain ⟨hlen, hnames⟩ := ih hstart h
        exact ⟨by omega, hnames⟩
      · obtain ⟨hlen, hnames⟩ := ih hmore h
        rw [List.length_append, List.length_singleton] at hlen
        exact ⟨by omega, hnames⟩
      · split at h
        · cases h
          rw [List.length_append, List.length_singleton]
          exact ⟨by omega, hmore⟩
        · cases h

theorem canonical_of_canonicalize {q : Path} (h : canonicalize limit fs p = some q) : Canonical limit q := by
  unfold canonicalize at h
  split at h
  · obtain ⟨hlen, hnames⟩ := canonical_of_follow (fun _ hn => absurd hn List.not_mem_nil) h
    exact ⟨by simpa using hlen, hnames⟩
  · cases h

/-- A canonical path is followed to itself. -/
theorem follow_canonical (hfound : Found fs (done ++ p) i x) (hp : Canonical limit p) :
    follow fs limit done p = some (done ++ p) := by
  induction p generalizing limit done with
  | nil =>
    rw [List.append_nil]
    cases limit <;> rfl
  | cons n p ih =>
    obtain ⟨hlen, hnames⟩ := hp
    obtain ⟨limit, rfl⟩ : ∃ k, limit = k + 1 := Nat.exists_eq_add_one.mpr (Nat.zero_lt_of_lt hlen)
    obtain ⟨⟨hdot, hdots⟩, hrest⟩ := List.forall_mem_cons.mp hnames
    have hsplit : done ++ n :: p = (done ++ [n]) ++ p := by simp
    rw [hsplit] at hfound ⊢
    have hnext := ih hfound ⟨Nat.le_of_succ_le_succ hlen, hrest⟩
    rw [follow, if_neg hdot, if_neg hdots]
    by_cases hnil : p = []
    · subst hnil
      rw [List.append_nil] at hfound ⊢
      rw [hfound.1, Option.bind_some, hfound.2.1]
      cases hbody : x.body with
      | file => simp [hbody]
      | dir =>
        rw [List.append_nil] at hnext
        simpa [hbody] using hnext
      | symlink =>
        have hlink := hfound.2.2
        simp [isSymlink, hbody] at hlink
    · obtain ⟨d, y, habove, hdir⟩ := found_above hnil hfound.1
      rw [habove.1, Option.bind_some, habove.2.1]
      cases hbody : y.body with
      | dir => simpa [hbody] using hnext
      | file => simp [isDir, hbody] at hdir
      | symlink => simp [isDir, hbody] at hdir

theorem metadata_of_found {q : Path} (hroot : (fs root).any isDir) (hfound : Found fs q i x)
    (hq : Canonical limit q) : metadata limit fs q = some x := by
  have hcanon : canonicalize limit fs q = some q := by
    rw [canonicalize, if_pos hroot]
    exact @follow_canonical fs i x q [] limit hfound hq
  rw [metadata, hcanon, Option.bind_some, hfound.1, Option.bind_some, hfound.2.1]

theorem Reach.root_dir (h : Reach U fs fs') (hroot : (fs root).any isDir)
    (howner : ∀ x, fs root = some x → ¬U x.owner) : (fs' root).any isDir := by
  obtain ⟨x, hx, hdir⟩ := (Option.any_eq_true _ _).mp hroot
  obtain ⟨x', hx', halike⟩ := h.alike hx (howner x hx)
  exact (Option.any_eq_true _ _).mpr ⟨x', hx', halike.dir.trans hdir⟩

/-- **A path whose directories are closed to these users leads where it led.** -/
theorem Reach.found (h : Reach U fs fs') (hfound : Found fs p i x)
    (howner : ∀ q d y, q <+: p → Found fs q d y → ¬U y.owner)
    (hclosed : ∀ q d y, q <+: p → q ≠ p → Found fs q d y → Closed y) :
    ∃ x', Found fs' p i x' ∧ Alike x x' := by
  have hlookup : lookup fs' p = some i := by
    induction p using List.reverseRecOn generalizing i x with
    | nil => exact hfound.1
    | append_singleton p n ih =>
      obtain ⟨d, y, hd, hdir, hchild⟩ := found_of_snoc hfound.1
      have hpre : p <+: p ++ [n] := List.prefix_append p [n]
      have hne : p ≠ p ++ [n] := fun heq => by simpa using congrArg List.length heq
      have hshort : ∀ q, q <+: p → q ≠ p ++ [n] := fun q hq heq => by
        have hlen := hq.length_le
        rw [heq, List.length_append, List.length_singleton] at hlen
        omega
      have hlookup := ih hd (fun q e z hq => howner q e z (hq.trans hpre))
        fun q e z hq _ => hclosed q e z (hq.trans hpre) (hshort q hq)
      rw [lookup_snoc, hlookup, Option.bind_some]
      exact h.child hd.2.1 (howner p d y hpre hd) (hclosed p d y hpre hne hd) hchild hfound.2.1
        (howner _ i x List.prefix_rfl hfound)
  obtain ⟨x', hx', halike⟩ := h.alike hfound.2.1 (howner p i x List.prefix_rfl hfound)
  exact ⟨x', ⟨hlookup, hx', halike.symlink.trans hfound.2.2⟩, halike⟩

end

end Leshiy.Lib.Posix
