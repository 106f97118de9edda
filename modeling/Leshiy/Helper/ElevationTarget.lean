import Leshiy.Lib.Posix

/-!
# What may be run as root

`validate_elevation_target` (`leshiy-helper/src/elevate.rs`), on Unix. The path is made canonical, then the file
and every directory over it are looked at, one call after the other; other users go on meanwhile. `seen t` is the
file system that the `t`-th call sees.

Who owns the file or one of its directories is trusted. Of everyone else the check says that they cannot change
what will be run, neither afterwards nor while it is made.
-/

namespace Leshiy.Helper

open Leshiy.Lib Posix

inductive ElevateError where
  | io
  /-- Group or others may write it. -/
  | plantable (path : Path) (mode : Nat)

/-- `ancestors().skip(1)`. -/
def parents (p : Path) : List Path := (List.range p.length).reverse.map fun k => p.take k

def checkParents (limit : Nat) (seen : Nat → FileSystem) : Nat → List Path → Except ElevateError Unit
  | _, [] => .ok ()
  | t, dir :: dirs =>
    match metadata limit (seen t) dir with
    | none => .error .io
    | some x =>
      let mode := x.mode &&& 0o7777
      if mode &&& 0o022 ≠ 0 ∧ mode &&& 0o1000 = 0 then .error (.plantable dir mode)
      else checkParents limit seen (t + 1) dirs

def validateElevationTarget (limit : Nat) (seen : Nat → FileSystem) (bin : Path) : Except ElevateError Path :=
  match canonicalize limit (seen 0) bin with
  | none => .error .io
  | some canon =>
    match metadata limit (seen 1) canon with
    | none => .error .io
    | some x =>
      let mode := x.mode &&& 0o7777
      if mode &&& 0o022 ≠ 0 then .error (.plantable canon mode)
      else
        match checkParents limit seen 2 (parents canon) with
        | .error e => .error e
        | .ok () => .ok canon

section

variable {limit t : Nat} {seen : Nat → FileSystem} {bin canon q : Path} {dirs : List Path}
  {U : User → Prop}

theorem mem_parents : q ∈ parents canon ↔ q <+: canon ∧ q ≠ canon := by
  simp only [parents, List.mem_map, List.mem_reverse, List.mem_range]
  constructor
  · rintro ⟨k, hk, rfl⟩
    refine ⟨List.take_prefix k canon, fun heq => ?_⟩
    have hlen := congrArg List.length heq
    rw [List.length_take] at hlen
    omega
  · rintro ⟨hpre, hne⟩
    refine ⟨q.length, ?_, (List.prefix_iff_eq_take.mp hpre).symm⟩
    exact Nat.lt_of_le_of_ne hpre.length_le fun hlen => hne (hpre.eq_of_length hlen)

theorem mode_and (mode bits : Nat) (hbits : 0o7777 &&& bits = bits) :
    mode &&& 0o7777 &&& bits = mode &&& bits := by
  rw [Nat.and_assoc, hbits]

/-- Every directory is closed when it is looked at. -/
theorem closed_of_checkParents (h : checkParents limit seen t dirs = .ok ()) :
    ∀ dir ∈ dirs, ∃ t' x, metadata limit (seen t') dir = some x ∧ Closed x := by
  induction dirs generalizing t with
  | nil => exact fun dir hdir => absurd hdir List.not_mem_nil
  | cons dir dirs ih =>
    rw [checkParents] at h
    split at h
    · cases h
    next x hx =>
    dsimp only at h
    rw [mode_and _ _ rfl, mode_and _ _ rfl] at h
    split at h
    · cases h
    next hmode =>
    refine List.forall_mem_cons.mpr ⟨⟨t, x, hx, ?_⟩, ih h⟩
    by_cases hwrite : x.mode &&& 0o022 = 0
    · exact .inl hwrite
    · exact .inr fun hsticky => hmode ⟨hwrite, hsticky⟩

theorem validateElevationTarget_eq_ok (h : validateElevationTarget limit seen bin = .ok canon) :
    canonicalize limit (seen 0) bin = some canon ∧
      (∃ x, metadata limit (seen 1) canon = some x ∧ x.mode &&& 0o022 = 0) ∧
      ∀ q, q <+: canon → q ≠ canon → ∃ t x, metadata limit (seen t) q = some x ∧ Closed x := by
  unfold validateElevationTarget at h
  split at h
  · cases h
  next canon' hcanon =>
  split at h
  · cases h
  next x hx =>
  dsimp only at h
  rw [mode_and _ _ rfl] at h
  split at h
  · cases h
  next hmode =>
  split at h
  · cases h
  next hparents =>
  cases h
  refine ⟨hcanon, ⟨x, hx, by simpa using hmode⟩, fun q hq hne => ?_⟩
  exact closed_of_checkParents hparents q (mem_parents.mpr ⟨hq, hne⟩)

theorem reach_seen (hseen : ∀ t, Reach U (seen t) (seen (t + 1))) : Reach U (seen 0) (seen t) := by
  induction t with
  | zero => exact .refl
  | succ t ih => exact ih.trans (hseen t)

/-- What is found at the beginning is there at any time, if its directories are closed. -/
theorem found_later {fs : FileSystem} {i : Ino} {x : Node}
    (hcanon : canonicalize limit (seen 0) bin = some canon) (hreach : Reach U (seen 0) fs)
    (howner : ∀ q i x, q <+: canon → Found (seen 0) q i x → ¬U x.owner) (hq : q <+: canon)
    (hclosed : ∀ r i x, r <+: q → r ≠ q → Found (seen 0) r i x → Closed x) (hfound : Found (seen 0) q i x) :
    ∃ x', Found fs q i x' ∧ Alike x x' ∧ metadata limit fs q = some x' := by
  obtain ⟨x', hfound', halike⟩ :=
    hreach.found hfound (fun r j y hr => howner r j y (hr.trans hq)) hclosed
  have hroot := root_dir_of_canonicalize hcanon
  have hroot' := hreach.root_dir hroot fun y hy => howner [] root y List.nil_prefix (found_root hroot hy)
  obtain ⟨s, hs⟩ := hq
  have hcanonical : Canonical limit q := Canonical.prefix_of (hs ▸ canonical_of_canonicalize hcanon)
  exact ⟨x', hfound', halike, metadata_of_found hroot' hfound' hcanonical⟩

/-- The directories were closed from the beginning: nobody but their owners could have closed them. -/
theorem closed_at_start (hseen : ∀ t, Reach U (seen t) (seen (t + 1)))
    (hcanon : canonicalize limit (seen 0) bin = some canon)
    (howner : ∀ q i x, q <+: canon → Found (seen 0) q i x → ¬U x.owner)
    (hchecked : ∀ q, q <+: canon → q ≠ canon → ∃ t x, metadata limit (seen t) q = some x ∧ Closed x) :
    ∀ q i x, q <+: canon → q ≠ canon → Found (seen 0) q i x → Closed x := by
  -- from the root on: a directory is where it was once those over it are known to be closed
  suffices hlen : ∀ n q i x, q.length = n → q <+: canon → q ≠ canon → Found (seen 0) q i x → Closed x from
    fun q i x => hlen q.length q i x rfl
  intro n
  induction n using Nat.strongRecOn with
  | ind n ih =>
    rintro q i x rfl hq hne hfound
    obtain ⟨t, z, hz, hzclosed⟩ := hchecked q hq hne
    have hclosed : ∀ r j y, r <+: q → r ≠ q → Found (seen 0) r j y → Closed y := by
      intro r j y hr hrne hy
      have hlt : r.length < q.length :=
        Nat.lt_of_le_of_ne hr.length_le fun heq => hrne (hr.eq_of_length heq)
      refine ih r.length hlt r j y rfl (hr.trans hq) (fun heq => ?_) hy
      rw [heq] at hlt
      exact absurd hq.length_le (Nat.not_le_of_lt hlt)
    obtain ⟨x', -, halike, hmeta⟩ := found_later hcanon (reach_seen hseen) howner hq hclosed hfound
    obtain rfl := Option.some.inj (hz.symm.trans hmeta)
    exact (Closed.alike halike).mp hzclosed

/-- **What was validated is what will be run.** Let the users of `U` do what they can, from the moment the path
was made canonical; if none of them owns the file or a directory over it, an accepted path leads at any later
time to the same file with the same contents. -/
theorem validated_stays (hseen : ∀ t, Reach U (seen t) (seen (t + 1)))
    (h : validateElevationTarget limit seen bin = .ok canon)
    (howner : ∀ q i x, q <+: canon → Found (seen 0) q i x → ¬U x.owner) :
    ∃ i x, Found (seen 0) canon i x ∧ ∀ t fs, Reach U (seen t) fs →
      lookup fs canon = some i ∧ (isDir x = false → metadata limit fs canon = some x) := by
  obtain ⟨hcanon, ⟨z, hz, hmode⟩, hchecked⟩ := validateElevationTarget_eq_ok h
  obtain ⟨i, x, hfound⟩ := found_of_canonicalize hcanon
  have hclosed := closed_at_start hseen hcanon howner hchecked
  have hxowner := howner canon i x List.prefix_rfl hfound
  have hxmode : x.mode &&& 0o022 = 0 := by
    obtain ⟨x', -, halike, hmeta⟩ :=
      found_later hcanon (reach_seen hseen) howner List.prefix_rfl hclosed hfound
    obtain rfl := Option.some.inj (hz.symm.trans hmeta)
    rwa [halike.mode] at hmode
  refine ⟨i, x, hfound, fun t fs hreach => ?_⟩
  have hall := (@reach_seen t seen U hseen).trans hreach
  obtain ⟨x', hfound', -, hmeta⟩ := found_later hcanon hall howner List.prefix_rfl hclosed hfound
  refine ⟨hfound'.1, fun hdir => ?_⟩
  rw [hmeta, ← hfound'.2.1]
  exact hall.node hfound.2.1 hxowner hxmode hdir

end

/-- `/tmp` is sticky and may be written by all, `/tmp/x` belongs to root. -/
def tmpBinary : FileSystem
  | 0 => some ⟨0, 0, 0o755, .dir fun n => if n = "tmp".toList then some 1 else none⟩
  | 1 => some ⟨0, 0, 0o1777, .dir fun n => if n = "x".toList then some 2 else none⟩
  | 2 => some ⟨0, 0, 0o755, .file [35, 33]⟩
  | _ => none

theorem tmpBinary_owner {i : Ino} {x : Node} (h : tmpBinary i = some x) : x.owner = 0 := by
  unfold tmpBinary at h
  split at h
  all_goals cases h
  all_goals rfl

theorem validated_stays_tmpBinary :
    ∃ i x, Found tmpBinary ["tmp".toList, "x".toList] i x ∧
      ∀ (_ : Nat) fs, Reach (fun u => u = 1000) tmpBinary fs →
        lookup fs ["tmp".toList, "x".toList] = some i ∧
          (isDir x = false → metadata 40 fs ["tmp".toList, "x".toList] = some x) := by
  have hvalid : validateElevationTarget 40 (fun _ => tmpBinary) ["tmp".toList, "x".toList] =
      .ok ["tmp".toList, "x".toList] := by rfl
  refine validated_stays (U := fun u => u = 1000) (fun _ => .refl) hvalid fun q i x _ hfound hx => ?_
  rw [tmpBinary_owner hfound.2.1] at hx
  cases hx

end Leshiy.Helper
