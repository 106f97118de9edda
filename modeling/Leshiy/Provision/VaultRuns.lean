import Leshiy.Provision.VaultSteps

/-!
# No save of the vault is lost

The file of a vault is a register that is compared before it is set: `World.Matches.step` simulates a
step by the operation it shows. What follows for histories of registers then holds of every run.
-/

namespace Leshiy.Provision

open Leshiy.Lib

abbrev Log := List (Taken World Action Event)

def Event.did? : Event → Option (Register.Op Nat Nat (Option (List UInt8)))
  | did op => some op
  | returned _ _ => none

/-- What has been done to the file and seen of it. -/
def ops (log : Log) : List (Register.Op Nat Nat (Option (List UInt8))) :=
  (shown log).filterMap Event.did?

/-- A call of `save` has made the blob, of what its handle had then. -/
def Made {K : Type} (k : Sealing K) (log : Log) (blob : List UInt8) : Prop :=
  ∃ x ∈ log, ∃ t h passphrase salt nonce target v,
    x.act = .save t h passphrase salt nonce target ∧ x.pre.vaults h = some v ∧
      k.«seal» v.records passphrase salt nonce = .ok blob

/-- The file as a register: `seen h` is what the handle `h` has loaded or saved last. -/
abbrev File := Register Nat Nat (Option (List UInt8))

namespace World

/-- The register that a state is. -/
structure Matches (path : Str) (r : File) (s : World) : Prop where
  value : r.value = s.files path
  kept : r.kept = s.onDisk
  seen : ∀ {h v}, s.vaults h = some v → r.seen h = some v.snapshot
  setBy : ∀ {t h}, s.saves t = some ⟨h, .renamed⟩ → r.setBy = some (t, h)

section

variable {path : Str} {r : File} {s s' : World} {t h : Nat} {v : Vault}

theorem matches_init (path : Str) (files : Str → Option (List UInt8)) :
    (init path files).Matches path (.init (files path)) :=
  ⟨rfl, rfl, nofun, nofun⟩

/-- A step that does nothing to the register. -/
theorem Matches.frame (hm : s.Matches path r) (hpath : s'.files path = s.files path)
    (hdisk : s'.onDisk = s.onDisk)
    (hvaults : ∀ {h v'}, s'.vaults h = some v' → ∃ v, s.vaults h = some v ∧ v'.snapshot = v.snapshot)
    (hsaves : ∀ {t h}, s'.saves t = some ⟨h, .renamed⟩ → s.saves t = some ⟨h, .renamed⟩) :
    s'.Matches path r := by
  refine ⟨hm.value.trans hpath.symm, hm.kept.trans hdisk.symm, fun hv => ?_, fun ht => hm.setBy (hsaves ht)⟩
  obtain ⟨v, hv, hsnapshot⟩ := hvaults hv
  rw [hsnapshot]
  exact hm.seen hv

/-- A call goes on, and does not come to be renamed. -/
theorem Matches.setSave {phase : Phase} {files : Str → Option (List UInt8)} {lock : Option Owner}
    (hm : s.Matches path r) (hpath : files path = s.files path)
    (hphase : phase ≠ .renamed := by nofun) :
    ({ s.setSave t (some ⟨h, phase⟩) with files, lock } : World).Matches path r := by
  refine hm.frame hpath rfl (fun hv => ⟨_, hv, rfl⟩) fun ht => ?_
  rcases setSave_saves ht with ⟨-, heq⟩ | ⟨-, ht⟩
  · cases heq
    exact absurd rfl hphase
  · exact ht

theorem Matches.finish (hm : s.Matches path r) : (s.finish t h).Matches path r := by
  refine hm.frame rfl rfl (fun {h' v'} hv' => ?_) fun ht => ?_
  · by_cases hh : h' = h
    · subst hh
      obtain ⟨v, hv, heq⟩ := Option.map_eq_some_iff.mp ((Function.update_self h' _ _).symm.trans hv')
      refine ⟨v, hv, ?_⟩
      rw [← heq]
      split
      · rfl
      · rfl
    · exact ⟨v', (Function.update_of_ne hh _ _).symm.trans hv', rfl⟩
  · rcases setSave_saves ht with ⟨-, heq⟩ | ⟨-, ht⟩
    · cases heq
    · exact ht

/-- A handle has seen what its snapshot is. -/
theorem Matches.see {c : Option (List UInt8)} (hm : s.Matches path r) (hsnapshot : v.snapshot = c) :
    (s.setVault h (some v)).Matches path (r.apply (.see h c)) := by
  refine ⟨hm.value, hm.kept, fun {h' w} hw => ?_, hm.setBy⟩
  rcases setVault_vaults hw with ⟨rfl, hset⟩ | ⟨hne, hother⟩
  · cases hset
    rw [hsnapshot]
    exact Function.update_self _ _ _
  · exact (Function.update_of_ne hne _ _).trans (hm.seen hother)

theorem load_snapshot {K : Type} {k : Sealing K} {file : Option (List UInt8)} {passphrase : Str}
    (hload : Vault.load k file passphrase = .ok v) : v.snapshot = file := by
  unfold Vault.load at hload
  split at hload
  · next bytes =>
    cases hopen : k.open bytes passphrase with
    | error e =>
      rw [hopen] at hload
      cases hload
    | ok records =>
      rw [hopen] at hload
      cases hload
      rfl
  · cases hload
    rfl

/-- The blob takes the place of what the snapshot was. -/
theorem Matches.rename {blob content : List UInt8} {tmp : Str} (hm : s.Matches path r)
    (hinv : s.Inv path) (ht : s.saves t = some ⟨h, .synced blob tmp⟩)
    (hcontent : s.files tmp = some content) :
    (s.rename t h path blob tmp content v).1.Matches path
      (r.apply (.set t h (s.files path) (some content))) := by
  have hblob := hinv.content_eq ht hcontent
  refine ⟨?_, ?_, fun {h' w} hw => ?_, fun {t' h'} ht' => ?_⟩
  · show some content = Function.update (Function.update s.files tmp none) path (some content) path
    rw [Function.update_self]
  · show r.kept ++ [some content] = s.onDisk ++ [some content]
    rw [hm.kept]
  · have hw : Function.update s.vaults h (some { v with snapshot := some blob }) h' = some w := hw
    rcases setVault_vaults hw with ⟨rfl, hset⟩ | ⟨hne, hother⟩
    · cases hset
      show Function.update r.seen h' (some (some content)) h' = some (some blob)
      rw [Function.update_self, hblob]
    · exact (Function.update_of_ne hne _ _).trans (hm.seen hother)
  · rcases setSave_saves ht' with ⟨rfl, heq⟩ | ⟨hne, ht'⟩
    · cases heq
      rfl
    · exact absurd trivial (hinv.others ht trivial hne ht')

theorem Matches.confirm (hm : s.Matches path r) :
    ({ s.finish t h with onDisk := [s.files path] } : World).Matches path
      (r.apply (.confirm t h)) := by
  have hfinish := hm.finish (t := t) (h := h)
  exact ⟨hfinish.value, congrArg (fun c => [c]) hm.value, hfinish.seen, hfinish.setBy⟩

theorem Matches.without (hm : s.Matches path r) (dead : Nat → Bool) :
    (s.without dead).Matches path r := by
  refine hm.frame rfl rfl (fun {h v} hv => ⟨v, ?_, rfl⟩) fun ht => (Option.filter_eq_some_iff.mp ht).1
  have hv : (if dead h then none else s.vaults h) = some v := hv
  split at hv
  · cases hv
  · exact hv

theorem Matches.powerLoss {r : File} {s : World} (content : Option (List UInt8))
    (junk : Str → Option (List UInt8)) :
    ({ s.without fun _ => true with
      files := fun name => if name = path then content else junk name
      onDisk := [content] } : World).Matches path (r.apply (.lose content)) := by
  refine ⟨(if_pos rfl).symm, rfl, nofun, fun ht => ?_⟩
  cases (Option.filter_eq_some_iff.mp ht).2

/-- **A step is one of the register**, or none. -/
theorem Matches.step {K : Type} {k : Sealing K} {a : Action} {ev : List Event}
    (hm : s.Matches path r) (hinv : s.Inv path) (hstep : Stepped k path s a s' ev) :
    ev.filterMap Event.did? = [] ∧ s'.Matches path r ∨
      ∃ op, ev.filterMap Event.did? = [op] ∧ r.Enabled op ∧ s'.Matches path (r.apply op) := by
  cases hstep with
  | new h hnone hlock => exact .inr ⟨.see h none, rfl, trivial, hm.see rfl⟩
  | lock h hnone hlock =>
    exact .inl ⟨rfl, hm.frame (createLock_of_ne (lockName_ne path).symm) rfl
      (fun hv => ⟨_, hv, rfl⟩) id⟩
  | load h passphrase hnone hload =>
    have hsnapshot := load_snapshot hload
    exact .inr ⟨.see h (s.files path), rfl, trivial, hm.see hsnapshot⟩
  | loadFails h passphrase io hnone => exact .inl ⟨rfl, hm.frame rfl rfl (fun hv => ⟨_, hv, rfl⟩) id⟩
  | change records hv =>
    refine .inl ⟨rfl, hm.frame rfl rfl (fun hw => ?_) id⟩
    rcases setVault_vaults hw with ⟨rfl, hset⟩ | ⟨-, hother⟩
    · cases hset
      exact ⟨_, hv, rfl⟩
    · exact ⟨_, hother, rfl⟩
  | sealFails => exact .inl ⟨rfl, hm⟩
  | save target hnone hv hseal => exact .inl ⟨rfl, hm.setSave rfl⟩
  | stop e ht ha hcheck => exact .inl ⟨rfl, hm.finish⟩
  | acquireOwn e ht hv hown => exact .inl ⟨rfl, hm.setSave rfl⟩
  | acquire e ht hv hown hlock =>
    exact .inl ⟨rfl, hm.setSave (createLock_of_ne (lockName_ne path).symm)⟩
  | @refuse t h blob v ht hv hguard hne =>
    refine .inr ⟨.refuse t h, rfl, ?_, hm.finish⟩
    show r.seen h ≠ some r.value
    rw [hm.seen hv, hm.value]
    exact fun heq => hne (Option.some.inj heq).symm
  | @check t h blob v ht hv hguard heq =>
    refine .inl ⟨rfl, Matches.frame (s := s.setSave t (some ⟨h, .checked blob⟩)) (hm.setSave rfl) rfl rfl
      (fun hw => ?_) id⟩
    rcases setVault_vaults hw with ⟨rfl, hset⟩ | ⟨-, hother⟩
    · cases hset
      exact ⟨_, hv, rfl⟩
    · exact ⟨_, hother, rfl⟩
  | create n e ht hnone =>
    exact .inl ⟨rfl, hm.setSave (Function.update_of_ne (tmpName_ne path n).symm _ _)⟩
  | write n ht hdone =>
    obtain ⟨hne, -⟩ := (hinv.saves ht).file rfl
    exact .inl ⟨rfl, hm.setSave (Function.update_of_ne hne.symm _ _)⟩
  | sync ht => exact .inl ⟨rfl, hm.setSave rfl⟩
  | @rename t h _ _ _ v ht hcontent hv =>
    refine .inr ⟨_, rfl, ⟨hm.value, ?_⟩, hm.rename hinv ht hcontent⟩
    rw [hm.seen hv, ((hinv.saves ht).base trivial hv).2]
  | syncDir ht => exact .inr ⟨_, rfl, hm.setBy ht, hm.confirm⟩
  | die dead => exact .inl ⟨rfl, hm.without dead⟩
  | powerLoss n junk hn =>
    refine .inr ⟨_, rfl, ?_, .powerLoss _ junk⟩
    show _ ∈ r.kept
    rw [hm.kept]
    exact List.mem_of_getElem? hn

end

end World

/-! ## Runs -/

section

variable {K : Type} {k : Sealing K} {path : Str} {files : Str → Option (List UInt8)} {log : Log}
  {s s' : World} {a : Action} {ev : List Event} {t h : Nat} {x : Save} {blob : List UInt8}

theorem ops_snoc {y : Taken World Action Event} :
    ops (log ++ [y]) = ops log ++ y.ev.filterMap Event.did? := by
  unfold ops
  rw [shown_snoc, List.filterMap_append]

theorem Made.snoc {y : Taken World Action Event} (hmade : Made k log blob) :
    Made k (log ++ [y]) blob := by
  obtain ⟨x, hx, hrest⟩ := hmade
  exact ⟨x, List.mem_append_left _ hx, hrest⟩

/-- The blobs of the calls have been made, and so have those that the file has been set to. -/
structure World.AllMade (k : Sealing K) (log : Log) (s : World) : Prop where
  saves : ∀ {t x blob}, s.saves t = some x → x.phase.blob? = some blob → Made k log blob
  sets : ∀ {t h old new}, .set t h old new ∈ ops log → ∃ blob, new = some blob ∧ Made k log blob

/-- The blob of a call after a step is the one it had, or one that the step has made. -/
theorem World.Stepped.blob_from (hstep : s.Stepped k path a s' ev) (ht : s'.saves t = some x)
    (hblob : x.phase.blob? = some blob) :
    (∃ y, s.saves t = some y ∧ y.phase.blob? = some blob) ∨ Made k [⟨s, a, ev⟩] blob := by
  cases hstep with
  | new | lock | load | loadFails | change | sealFails => exact .inl ⟨x, ht, hblob⟩
  | save target hnone hv hseal =>
    rcases World.setSave_saves ht with ⟨-, heq⟩ | ⟨-, ht⟩
    · cases heq
      cases hblob
      exact .inr ⟨_, List.mem_singleton_self _, _, _, _, _, _, _, _, rfl, hv, hseal⟩
    · exact .inl ⟨x, ht, hblob⟩
  | stop | refuse | syncDir =>
    rcases World.setSave_saves ht with ⟨-, heq⟩ | ⟨-, ht⟩
    · cases heq
    · exact .inl ⟨x, ht, hblob⟩
  | acquireOwn _ hx | acquire _ hx | check hx | create _ _ hx | write _ hx | sync hx =>
    rcases World.setSave_saves ht with ⟨rfl, heq⟩ | ⟨-, ht⟩
    · cases heq
      cases hblob
      exact .inl ⟨_, hx, rfl⟩
    · exact .inl ⟨x, ht, hblob⟩
  | rename hx hcontent hv =>
    rcases World.setSave_saves ht with ⟨-, heq⟩ | ⟨-, ht⟩
    · cases heq
      cases hblob
    · exact .inl ⟨x, ht, hblob⟩
  | die | powerLoss => exact .inl ⟨x, (Option.filter_eq_some_iff.mp ht).1, hblob⟩

/-- What a step sets the file to is the blob of a call. -/
theorem World.Stepped.set_blob {old new : Option (List UInt8)} (hstep : s.Stepped k path a s' ev)
    (hinv : s.Inv path) (hset : .set t h old new ∈ ev.filterMap Event.did?) :
    ∃ blob x, new = some blob ∧ s.saves t = some x ∧ x.phase.blob? = some blob := by
  cases hstep with
  | rename hx hcontent hv =>
    obtain ⟨rfl, rfl, rfl, rfl⟩ := Register.Op.set.inj (List.mem_singleton.mp hset)
    exact ⟨_, _, rfl, hx, by rw [hinv.content_eq hx hcontent]; rfl⟩
  | new | load | refuse | syncDir | powerLoss => cases List.mem_singleton.mp hset
  | lock | loadFails | change | sealFails | save | stop | acquireOwn | acquire | check | create
  | write | sync | die => cases hset

theorem World.AllMade.step (hmade : s.AllMade k log) (hinv : s.Inv path)
    (hstep : s.Stepped k path a s' ev) : s'.AllMade k (log ++ [⟨s, a, ev⟩]) := by
  refine ⟨fun ht hblob => ?_, fun {t h old new} hset => ?_⟩
  · rcases hstep.blob_from ht hblob with ⟨y, hy, hblob⟩ | ⟨z, hz, hrest⟩
    · exact (hmade.saves hy hblob).snoc
    · exact ⟨z, List.mem_append_right _ hz, hrest⟩
  · rw [ops_snoc] at hset
    rcases List.mem_append.mp hset with hset | hset
    · obtain ⟨blob, hnew, hblob⟩ := hmade.sets hset
      exact ⟨blob, hnew, hblob.snoc⟩
    · obtain ⟨blob, x, hnew, hx, hblob⟩ := hstep.set_blob hinv hset
      exact ⟨blob, hnew, (hmade.saves hx hblob).snoc⟩

/-- What holds of every run: it is a history of the register. -/
structure World.Reached (k : Sealing K) (path : Str) (files : Str → Option (List UInt8)) (log : Log)
    (s : World) : Prop where
  inv : s.Inv path
  valid : (Register.init (files path) : File).ValidFrom (ops log)
  is : s.Matches path ((Register.init (files path)).after (ops log))
  made : s.AllMade k log

theorem World.reached (hrun : Exec (World.step k path) (World.init path files) log s) :
    s.Reached k path files log := by
  refine hrun.inv (P := fun log s => s.Reached k path files log) ?_ fun log s a s' ev _ hr hs => ?_
  · exact ⟨World.inv_init path files, Register.validFrom_nil, World.matches_init path files,
      ⟨nofun, nofun⟩⟩
  have hstep := World.stepped hs
  have hinv := hr.inv.step hstep
  have hmade := hr.made.step hr.inv hstep
  have hops : ops (log ++ [⟨s, a, ev⟩]) = ops log ++ ev.filterMap Event.did? := ops_snoc
  rcases hr.is.step hr.inv hstep with ⟨hnone, his⟩ | ⟨op, hop, henabled, his⟩
  · rw [hnone, List.append_nil] at hops
    exact ⟨hinv, hops ▸ hr.valid, hops ▸ his, hmade⟩
  · rw [hop] at hops
    refine ⟨hinv, ?_, ?_, hmade⟩
    · rw [hops]
      exact Register.validFrom_snoc.mpr ⟨hr.valid, henabled⟩
    · rw [hops, Register.after_snoc]
      exact his

/-- What the file is after a run is what it was at first or a blob that a call of `save` has made. -/
theorem World.Reached.file (hr : s.Reached k path files log) :
    s.files path = files path ∨ ∃ blob, s.files path = some blob ∧ Made k log blob := by
  rw [← hr.is.value]
  rcases hr.valid.value_from _ (.inl rfl) with h | ⟨t, h, old, hmem⟩
  · exact .inl h
  · exact .inr (hr.made.sets hmem)

/-- A call whose handle is not based on what is in the file does nothing to it and is refused. -/
theorem World.Reached.refused (hr : s.Reached k path files log) (hx : s.saves t = some x)
    (hstale : ((Register.init (files path) : File).after (ops log)).seen x.handle ≠
      some (s.files path))
    (hsave : a.save? = some t) (hs : s.step k path a = some (s', ev)) :
    s'.files path = s.files path ∧ .returned t (.ok ()) ∉ ev ∧
      (a = .check t → s'.saves t = none ∧ .returned t (.error changed) ∈ ev) := by
  have hinv := hr.inv.saves hx
  obtain ⟨v, hv⟩ := hinv.alive
  have hsnapshot : v.snapshot ≠ s.files path := fun heq => hstale (by rw [hr.is.seen hv, heq])
  have hnot : ¬ x.phase.Checked := fun hc => hsnapshot (hinv.base hc hv).2
  cases World.stepped hs with
  | stop e ht ha hcheck =>
    obtain rfl := Option.some.inj (ha.symm.trans hsave)
    exact ⟨rfl, by simp, fun heq => absurd heq hcheck⟩
  | acquireOwn => exact ⟨rfl, by simp, nofun⟩
  | acquire => exact ⟨World.createLock_of_ne (lockName_ne path).symm, by simp, nofun⟩
  | refuse ht hv' hguard hne =>
    cases hsave
    exact ⟨rfl, by simp, fun _ => ⟨Function.update_self _ _ _, by simp⟩⟩
  | check ht hv' hguard heq =>
    cases hsave
    rw [hx] at ht
    cases ht
    rw [hv] at hv'
    cases hv'
    exact absurd heq.symm hsnapshot
  | create n e ht | write n ht | sync ht | rename ht | syncDir ht =>
    cases hsave
    rw [hx] at ht
    cases ht
    exact absurd trivial hnot
  | new | lock | load | loadFails | change | sealFails | save | die | powerLoss => cases hsave

/-- **No save is lost**, whatever handles and processes do, fail to do or leave undone: the file is what
it was at first or a whole blob that a call has made; a call whose handle is not based on what is in the
file is refused; and one that returned `Ok` had put its blob in the place of exactly what its handle had
loaded or saved last, and the blob is there ever after, up to where a handle that had it in turn
replaced it. -/
theorem no_save_lost (hrun : Exec (World.step k path) (World.init path files) log s) :
    (s.files path = files path ∨ ∃ blob, s.files path = some blob ∧ Made k log blob) ∧
    (∀ t x, s.saves t = some x →
      ((Register.init (files path) : File).after (ops log)).seen x.handle ≠ some (s.files path) →
      ∀ a s' ev, a.save? = some t → s.step k path a = some (s', ev) →
        s'.files path = s.files path ∧ .returned t (.ok ()) ∉ ev ∧
          (a = .check t → s'.saves t = none ∧ .returned t (.error changed) ∈ ev)) ∧
    (∀ before t h rest, ops log = before ++ .confirm t h :: rest →
      ∃ earlier old blob later, before = earlier ++ .set t h old (some blob) :: later ∧
        Made k log blob ∧
        ((Register.init (files path) : File).after earlier).value = old ∧
        ((Register.init (files path) : File).after earlier).seen h = some old ∧
        (s.files path = some blob ∨
          ∃ mid t' h' new tail, rest = mid ++ .set t' h' (some blob) new :: tail ∧
            ((Register.init (files path) : File).after (before ++ .confirm t h :: mid)).seen h' =
              some (some blob))) := by
  have hr := World.reached hrun
  refine ⟨hr.file, fun t x hx hstale a s' ev => hr.refused hx hstale, ?_⟩
  intro before t h rest hops
  have hvalid := hr.valid
  have hvalue := hr.is.value
  rw [hops] at hvalid hvalue
  obtain ⟨earlier, old, later, hbefore⟩ := Register.set_of_setBy (hvalid before _ rest rfl)
  generalize hnew : ((Register.init (files path) : File).after before).value = new at hbefore
  have hset : .set t h old new ∈ ops log := by
    rw [hops, hbefore]
    exact List.mem_append_left _ (List.mem_append_right _ List.mem_cons_self)
  obtain ⟨blob, rfl, hmade⟩ := hr.made.sets hset
  obtain ⟨hold, hseen⟩ := hvalid.left earlier _ later hbefore
  refine ⟨earlier, old, blob, later, hbefore, hmade, hold, hseen, ?_⟩
  rw [← hvalue, ← hnew]
  exact hvalid.confirmed

end

/-- Two handles on a vault that is not there yet: the second to save is refused. -/
theorem no_save_lost_of_two : ∃ (k : Sealing (Block 32)) (log : Log) (s : World) (blob : List UInt8),
    Exec (World.step k "v".toList) (World.init "v".toList fun _ => none) log s ∧
      s.files "v".toList = some blob ∧ s.saves 1 = none ∧ Made k log blob := by
  let k : Sealing (Block 32) :=
    ⟨fun _ => .ok [0x5b, 0x5d], fun _ => .ok [], fun _ salt => .ok (.ofList 32 salt),
      .tagged (Block NONCE_LEN) 32 16⟩
  obtain ⟨log, s, hrun, hsome, hnone⟩ := exec_reaches (World.step k "v".toList)
    (World.init "v".toList fun _ => none)
    [.load 0 [] none, .load 1 [] none, .save 0 0 [] (.fill _ 1) (.fill _ 2) "v".toList, .acquire 0 [],
      .check 0, .create 0 5 [], .write 0 40, .write 0 200, .sync 0, .rename 0, .syncDir 0,
      .save 1 1 [] (.fill _ 3) (.fill _ 4) "v".toList, .acquire 1 [], .check 1]
    (fun _ s => (s.files "v".toList).isSome ∧ (s.saves 1).isNone) (by decide +kernel)
  rcases (no_save_lost hrun).1 with hfile | ⟨blob, hblob, hmade⟩
  · rw [hfile] at hsome
    cases hsome
  · exact ⟨k, log, s, blob, hrun, hblob, Option.isNone_iff_eq_none.mp hnone, hmade⟩

end Leshiy.Provision
