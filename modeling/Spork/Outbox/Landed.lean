import Spork.Outbox.Press
import Spork.Lib.Runs

/-! A press sent by one sender (client/app/outbound/pack/writes.ts), stopped anywhere and
sent on from what was last kept, and what a server that answers a repeated set of ids as a
replay has recorded of it. -/
namespace Spork
namespace Outbox

open Bench (Uuid)

/-- A press as it is kept, its send while one is running, the requests sent and the
distinct acts the server has recorded. -/
structure Sender where
  stored : HeldPress
  running : Option (HeldPress × Pos)
  sent : List Request
  recorded : List Request

/-- The same act: of the same ids, or, of a request that carries none, the same save. -/
def sameAct (r a : Request) : Bool :=
  if r.ids = [] then decide (a.ids = [] ∧ a.write = r.write ∧ a.turn = r.turn) else decide (a.ids = r.ids)

/-- A server records an act it has not, and replays one it has. -/
def record (recorded : List Request) (r : Request) : List Request :=
  if recorded.any (sameAct r) then recorded else recorded++[r]

inductive Act
  | works (mint : Text → Uuid)
  /-- The server takes a request, then or later or again. -/
  | serve (r : Request)
  | answer
  /-- A failure, or a reload: what was in memory is gone. -/
  | stop
  | resume

def Sender.kept (press : HeldPress) : Sender := ⟨press,none,[],[]⟩

/-- What an effect of the send does outside its memory. -/
def Sender.after (s : Sender) (body : HeldPress) (pos : Pos) : Effect → Sender
  | .quiet => {s with running := some (body,pos)}
  | .keep => {s with running := some (body,pos), stored := body}
  | .sends r => {s with running := some (body,pos), sent := s.sent++[r]}

/-- One step: of the send, where no id it mints is one it has, of the server, or a stop. -/
def Sender.step (s : Sender) : Act → Option Sender
  | .works mint =>
    match s.running with
    | none => none
    | some (body,pos) =>
      match advance mint body pos with
      | none => none
      | some (body',pos',effect) =>
        if (body'.ids.map Prod.snd).Nodup then some (s.after body' pos' effect) else none
  | .serve r => if r ∈ s.sent then some {s with recorded := record s.recorded r} else none
  | .answer =>
    match s.running with
    | some (body,.awaits turn r) =>
      if s.recorded.any (sameAct r) then some {s with running := some (body,.asks (turn+1) [])} else none
    | _ => none
  | .stop => some {s with running := none}
  | .resume =>
    match s.running with
    | none => some {s with running := some (s.stored,default)}
    | some _ => none

def spotsOf (w : BenchWrite) : List (BenchWrite × ℕ) := (List.range (calls w.what).length).map fun t => (w,t)

/-- The requests of a press's writes, in order. -/
def spots (ws : List BenchWrite) : List (BenchWrite × ℕ) := ws.flatMap spotsOf

/-- How many requests come before one. -/
def before (ws : List BenchWrite) (done turn : ℕ) : ℕ := (spots (ws.take done)).length+turn

theorem spots_get {ws : List BenchWrite} {done turn : ℕ} {w : BenchWrite} (hw : ws[done]? = some w)
    (ht : turn < (calls w.what).length) : (spots ws)[before ws done turn]? = some (w,turn) := by
  obtain ⟨hlt,rfl⟩ := List.getElem?_eq_some_iff.mp hw
  have hsplit : ws = ws.take done++ws[done] :: ws.drop (done+1) := by
    rw [← List.drop_eq_getElem_cons hlt,List.take_append_drop]
  have hspots : spots ws = spots (ws.take done)++(spotsOf ws[done]++spots (ws.drop (done+1))) := by
    conv_lhs => rw [hsplit]
    rw [spots,List.flatMap_append,List.flatMap_cons]
    rfl
  rw [hspots,before,List.getElem?_append_right (Nat.le_add_right _ _),Nat.add_sub_cancel_left,
    List.getElem?_append_left (by simpa [spotsOf] using ht)]
  simp [spotsOf,ht]

theorem before_succ {ws : List BenchWrite} {done : ℕ} {w : BenchWrite} (hw : ws[done]? = some w) :
    before ws (done+1) 0 = before ws done (calls w.what).length := by
  obtain ⟨hlt,rfl⟩ := List.getElem?_eq_some_iff.mp hw
  rw [before,before,← List.take_concat_get' ws done hlt,spots,List.flatMap_append,List.length_append]
  simp [spots,spotsOf]

theorem before_end {ws : List BenchWrite} {done : ℕ} (hw : ws[done]? = none) :
    before ws done 0 = (spots ws).length := by
  rw [before,List.take_of_length_le (List.getElem?_eq_none_iff.mp hw)]
  rfl

theorem spots_nodup {ws : List BenchWrite} (h : (ws.map (·.part)).Nodup) : (spots ws).Nodup := by
  refine List.nodup_flatMap.mpr ⟨fun w _ => ?_,?_⟩
  · exact List.Nodup.map (fun a b hab => (Prod.mk.inj hab).2) List.nodup_range
  · refine (List.Nodup.of_map _ h).imp fun hne => ?_
    intro x hx hy
    obtain ⟨t,-,rfl⟩ := List.mem_map.mp hx
    obtain ⟨t',-,heq⟩ := List.mem_map.mp hy
    exact hne (Prod.mk.inj heq).1.symm

theorem mem_of_lookup {ids : List (Text × Uuid)} {name : Text} {id : Uuid} (h : ids.lookup name = some id) :
    (name,id) ∈ ids := by
  induction ids with
  | nil => cases h
  | cons x xs ih =>
    obtain ⟨n,i⟩ := x
    rw [List.lookup_cons] at h
    split at h
    · rename_i heq
      cases h
      rw [beq_iff_eq.mp heq]
      exact List.mem_cons_self
    · exact List.mem_cons_of_mem _ (ih h)

/-- An id is handed to one name. -/
theorem lookup_injective {ids : List (Text × Uuid)} (hids : (ids.map Prod.snd).Nodup) {name name' : Text} {id : Uuid}
    (h : ids.lookup name = some id) (h' : ids.lookup name' = some id) : name = name' :=
  congrArg Prod.fst (List.inj_on_of_nodup_map hids (mem_of_lookup h) (mem_of_lookup h') rfl)

/-- A write's requests that ask one name are one. -/
theorem turn_unique {w : Write} {t t' : ℕ} {c c' : Call} {n : Name} (h : (calls w)[t]? = some c)
    (h' : (calls w)[t']? = some c') (hn : n ∈ c.names) (hn' : n ∈ c'.names) : t = t' := by
  have hpair := (List.nodup_flatMap.mp (names_nodup w)).2
  obtain ⟨hlt,rfl⟩ := List.getElem?_eq_some_iff.mp h
  obtain ⟨hlt',rfl⟩ := List.getElem?_eq_some_iff.mp h'
  rcases Nat.lt_trichotomy t t' with hlt₁ | heq | hlt₁
  · exact absurd hn' (List.pairwise_iff_getElem.mp hpair t t' hlt hlt' hlt₁ hn)
  · exact heq
  · exact absurd hn (List.pairwise_iff_getElem.mp hpair t' t hlt' hlt hlt₁ hn')

/-- Two requests of a press of the same act are the same request of it. -/
theorem spot_of_sameAct {press : HeldPress} {ids : List (Text × Uuid)} {ws : List BenchWrite} {r a : Request}
    (hparts : (ws.map (·.part)).Nodup) (hids : (ids.map Prod.snd).Nodup) (hr : Asked press ids r)
    (ha : Asked press ids a) (hrw : r.write ∈ ws) (haw : a.write ∈ ws) (hsame : sameAct r a = true) :
    a.spot = r.spot := by
  rw [sameAct] at hsame
  split at hsame
  · obtain ⟨-,hw,ht⟩ := of_decide_eq_true hsame
    exact Prod.ext hw ht
  · rename_i hne
    have heq := of_decide_eq_true hsame
    obtain ⟨id,rest,hcons⟩ := List.exists_cons_of_ne_nil hne
    have hname : ∀ x : Request, Asked press ids x → x.ids = r.ids →
        ∃ n ∈ x.call.names, ids.lookup (partOf x.write.part n) = some id := fun x hx hxids => by
      have hmem : some id ∈ x.call.names.map fun n => ids.lookup (partOf x.write.part n) := by
        rw [← hx.ids,hxids,hcons]
        exact List.mem_cons_self
      obtain ⟨n,hn,hlookup⟩ := List.mem_map.mp hmem
      exact ⟨n,hn,hlookup⟩
    obtain ⟨n,hn,hlookup⟩ := hname r hr rfl
    obtain ⟨n',hn',hlookup'⟩ := hname a ha heq
    obtain ⟨hpart,rfl⟩ := partOf_injective (lookup_injective hids hlookup' hlookup)
    have hwrite : a.write = r.write := List.inj_on_of_nodup_map hparts haw hrw hpart
    refine Prod.ext hwrite ?_
    have hcall := ha.call
    rw [hwrite] at hcall
    exact turn_unique hcall hr.call hn' hn

/-- How the memory of a send stands to what is kept and to how much the server has. -/
def Memory (s : Sender) (body : HeldPress) : Pos → Prop
  | .asks turn got => body = s.stored ∧ before body.writes body.done turn ≤ s.recorded.length ∧ Got body turn got
  | .minted turn got => (∃ full id, body = {s.stored with ids := s.stored.ids++[(full,id)]}) ∧
      (body.ids.map Prod.snd).Nodup ∧ before body.writes body.done turn ≤ s.recorded.length ∧ Got body turn got
  | .awaits turn r => body = s.stored ∧ r ∈ s.sent ∧ body.writes[body.done]? = some r.write ∧ turn = r.turn
  | .counted => body = {s.stored with done := s.stored.done+1} ∧ before body.writes body.done 0 ≤ s.recorded.length

/-- What holds of a press wherever it was stopped: what was sent is known by what is kept,
and the server has recorded its first requests, in order, and no other. -/
structure Sound (press : HeldPress) (s : Sender) : Prop where
  writes : s.stored.writes = press.writes
  moment : s.stored.pressedAt = press.pressedAt
  distinct : (s.stored.ids.map Prod.snd).Nodup
  asked : ∀ r ∈ s.sent, Asked press s.stored.ids r
  near : ∀ r ∈ s.sent, ∃ q ≤ s.recorded.length, (spots press.writes)[q]? = some r.spot
  inOrder : s.recorded.map Request.spot <+: spots press.writes
  mine : ∀ r ∈ s.recorded, r ∈ s.sent
  started : before press.writes s.stored.done 0 ≤ s.recorded.length
  memory : ∀ body pos, s.running = some (body,pos) → Memory s body pos

variable {press : HeldPress} {s s' : Sender}

theorem Sound.kept (hids : (press.ids.map Prod.snd).Nodup) (hdone : press.done = 0) :
    Sound press (Sender.kept press) := by
  refine ⟨rfl,rfl,hids,by simp [Sender.kept],by simp [Sender.kept],by simp [Sender.kept],by simp [Sender.kept],?_,
    by simp [Sender.kept]⟩
  simp [Sender.kept,hdone,before,spots]

/-- What is sent is of the press's writes. -/
theorem Sound.write_mem (h : Sound press s) {r : Request} (hr : r ∈ s.sent) : r.write ∈ press.writes := by
  obtain ⟨q,-,hq⟩ := h.near r hr
  obtain ⟨w,hw,hspot⟩ := List.mem_flatMap.mp (List.mem_of_getElem? hq)
  obtain ⟨t,-,heq⟩ := List.mem_map.mp hspot
  rwa [← (Prod.mk.inj heq).1]

/-- What the server has recorded stands where it does in the press. -/
theorem Sound.spot_get (h : Sound press s) {i : ℕ} (hi : i < s.recorded.length) :
    (spots press.writes)[i]? = some s.recorded[i].spot := by
  obtain ⟨rest,hrest⟩ := h.inOrder
  rw [← hrest,List.getElem?_append_left (by simpa using hi)]
  simp [hi]

/-- Whether the server has a request's act is whether the request is among the first of
the press that it has recorded. -/
theorem Sound.recorded_iff (h : Sound press s) (hparts : (press.writes.map (·.part)).Nodup) {r : Request}
    (hr : r ∈ s.sent) {q : ℕ} (hq : (spots press.writes)[q]? = some r.spot) :
    s.recorded.any (sameAct r) = true ↔ q < s.recorded.length := by
  constructor
  · intro hany
    obtain ⟨a,ha,hsame⟩ := List.any_eq_true.mp hany
    have hspot := spot_of_sameAct hparts h.distinct (h.asked r hr) (h.asked a (h.mine a ha)) (h.write_mem hr)
      (h.write_mem (h.mine a ha)) hsame
    obtain ⟨i,hi,rfl⟩ := List.mem_iff_getElem.mp ha
    have hi' := h.spot_get hi
    rw [hspot,← hq] at hi'
    have hlen : i < (spots press.writes).length := by
      by_contra hnot
      rw [List.getElem?_eq_none (by omega),eq_comm,hq] at hi'
      cases hi'
    have heq := (List.getElem?_inj hlen (spots_nodup hparts)).mp hi'
    omega
  · intro hlt
    have hmem := List.getElem_mem hlt
    have hspot : r.spot = s.recorded[q].spot := Option.some.inj (hq.symm.trans (h.spot_get hlt))
    have ha : r ∈ s.recorded := (h.asked r hr).unique (h.asked _ (h.mine _ hmem)) hspot ▸ hmem
    refine List.any_eq_true.mpr ⟨r,ha,?_⟩
    rw [sameAct]
    split
    · rename_i hnil
      exact decide_eq_true ⟨hnil,rfl,rfl⟩
    · exact decide_eq_true rfl

/-- More recorded leaves a send's memory as it stands. -/
theorem Memory.mono {body : HeldPress} {pos : Pos} (h : Memory s body pos) (hstored : s'.stored = s.stored)
    (hsent : s'.sent = s.sent) (hrec : s.recorded.length ≤ s'.recorded.length) : Memory s' body pos := by
  cases pos with
  | asks turn got => exact ⟨hstored ▸ h.1,h.2.1.trans hrec,h.2.2⟩
  | minted turn got => exact ⟨hstored ▸ h.1,h.2.1,h.2.2.1.trans hrec,h.2.2.2⟩
  | awaits turn r => exact ⟨hstored ▸ h.1,hsent ▸ h.2.1,h.2.2⟩
  | counted => exact ⟨hstored ▸ h.1,h.2.trans hrec⟩

theorem Sound.serve (h : Sound press s) (hparts : (press.writes.map (·.part)).Nodup) {r : Request} (hr : r ∈ s.sent) :
    Sound press {s with recorded := record s.recorded r} := by
  obtain ⟨q,hq,hget⟩ := h.near r hr
  rw [record]
  split
  · exact h
  · rename_i hnot
    -- the request is the next of the press that the server has not recorded
    have hnext : q = s.recorded.length := by
      have hge : ¬q < s.recorded.length := fun hlt => hnot ((h.recorded_iff hparts hr hget).mpr hlt)
      omega
    subst hnext
    have hlen : (s.recorded++[r]).length = s.recorded.length+1 := by simp
    refine ⟨h.writes,h.moment,h.distinct,h.asked,fun x hx => ?_,?_,?_,?_,fun body pos hrun => ?_⟩
    · obtain ⟨q',hq',hget'⟩ := h.near x hx
      exact ⟨q',by rw [hlen]; omega,hget'⟩
    · obtain ⟨rest,hrest⟩ := h.inOrder
      have hlast : rest[0]? = some r.spot := by
        rw [← hrest,List.getElem?_append_right (by simp)] at hget
        simpa using hget
      obtain ⟨more,rfl⟩ : ∃ more, rest = r.spot :: more := by
        cases rest with
        | nil => cases hlast
        | cons x more =>
          cases hlast
          exact ⟨more,rfl⟩
      exact ⟨more,by rw [← hrest]; simp⟩
    · intro x hx
      rcases List.mem_append.mp hx with hx | hx
      · exact h.mine x hx
      · rwa [List.mem_singleton.mp hx]
    · rw [hlen]
      exact h.started.trans (Nat.le_succ _)
    · exact (h.memory body pos hrun).mono rfl rfl (by rw [hlen]; exact Nat.le_succ _)

theorem Sound.answer (h : Sound press s) (hparts : (press.writes.map (·.part)).Nodup) {body : HeldPress} {turn : ℕ}
    {r : Request} (hrun : s.running = some (body,.awaits turn r)) (hany : s.recorded.any (sameAct r) = true) :
    Sound press {s with running := some (body,.asks (turn+1) [])} := by
  obtain ⟨rfl,hr,hw,rfl⟩ := h.memory _ _ hrun
  refine ⟨h.writes,h.moment,h.distinct,h.asked,h.near,h.inOrder,h.mine,h.started,fun b p hbp => ?_⟩
  cases hbp
  have hcall := (h.asked r hr).call
  have hget : (spots press.writes)[before press.writes s.stored.done r.turn]? = some r.spot :=
    spots_get (h.writes ▸ hw) (List.getElem?_eq_some_iff.mp hcall).1
  have hlt := (h.recorded_iff hparts hr hget).mp hany
  refine ⟨rfl,?_,fun w call _ _ => by simp⟩
  rw [h.writes]
  exact hlt

theorem Sound.stop (h : Sound press s) : Sound press {s with running := none} :=
  ⟨h.writes,h.moment,h.distinct,h.asked,h.near,h.inOrder,h.mine,h.started,fun _ _ hrun => by cases hrun⟩

theorem Sound.resume (h : Sound press s) : Sound press {s with running := some (s.stored,default)} := by
  refine ⟨h.writes,h.moment,h.distinct,h.asked,h.near,h.inOrder,h.mine,h.started,fun b p hbp => ?_⟩
  cases hbp
  exact ⟨rfl,by rw [h.writes]; exact h.started,fun w call _ _ => by simp⟩

/-- A step in a send's own memory. -/
theorem Sound.quiet (h : Sound press s) {body : HeldPress} {pos : Pos} (hmem : Memory s body pos) :
    Sound press {s with running := some (body,pos)} := by
  refine ⟨h.writes,h.moment,h.distinct,h.asked,h.near,h.inOrder,h.mine,h.started,fun b p hbp => ?_⟩
  cases hbp
  exact hmem.mono rfl rfl le_rfl

/-- A request goes out once every id it carries is kept. -/
theorem Sound.sends (h : Sound press s) {turn : ℕ} {got : List Uuid} {w : BenchWrite} {call : Call}
    (hmem : Memory s s.stored (.asks turn got)) (hw : s.stored.writes[s.stored.done]? = some w)
    (hcall : (calls w.what)[turn]? = some call) (hname : call.names[got.length]? = none) {r : Request}
    (hr : r = ⟨w,turn,call,got,if call.dated then some s.stored.pressedAt else none⟩) :
    Sound press {s with running := some (s.stored,.awaits turn r), sent := s.sent++[r]} := by
  obtain ⟨-,hbefore,hgot⟩ := hmem
  have hasked : Asked press s.stored.ids r := by
    subst hr
    refine ⟨hcall,?_,by rw [h.moment]⟩
    rw [hgot w call hw hcall,List.take_of_length_le (List.getElem?_eq_none_iff.mp hname)]
  have hspot : (spots press.writes)[before press.writes s.stored.done turn]? = some r.spot := by
    subst hr
    exact spots_get (h.writes ▸ hw) (List.getElem?_eq_some_iff.mp hcall).1
  refine ⟨h.writes,h.moment,h.distinct,fun x hx => ?_,fun x hx => ?_,h.inOrder,fun x hx => ?_,h.started,
    fun b p hbp => ?_⟩
  · rcases List.mem_append.mp hx with hx | hx
    · exact h.asked x hx
    · rwa [List.mem_singleton.mp hx]
  · rcases List.mem_append.mp hx with hx | hx
    · exact h.near x hx
    · rw [List.mem_singleton.mp hx]
      exact ⟨_,h.writes ▸ hbefore,hspot⟩
  · exact List.mem_append_left _ (h.mine x hx)
  · cases hbp
    refine ⟨rfl,by simp,?_,?_⟩ <;> subst hr
    · exact hw
    · rfl

/-- What a send has made of its press is kept: an id minted, or a write counted. -/
theorem Sound.keep (h : Sound press s) {body : HeldPress} {pos : Pos} {more : List (Text × Uuid)}
    (hwrites : body.writes = s.stored.writes) (hmoment : body.pressedAt = s.stored.pressedAt)
    (hids : body.ids = s.stored.ids++more) (hdistinct : (body.ids.map Prod.snd).Nodup)
    (hdone : before press.writes body.done 0 ≤ s.recorded.length)
    (hmem : Memory {s with stored := body} body pos) :
    Sound press {s with running := some (body,pos), stored := body} := by
  refine ⟨hwrites.trans h.writes,hmoment.trans h.moment,hdistinct,fun x hx => ?_,h.near,h.inOrder,h.mine,hdone,
    fun b p hbp => ?_⟩
  · dsimp only
    rw [hids]
    exact (h.asked x hx).mono
  · cases hbp
    exact hmem.mono rfl rfl le_rfl

theorem Sound.works (h : Sound press s) {mint : Text → Uuid} {body body' : HeldPress} {pos pos' : Pos} {effect : Effect}
    (hrun : s.running = some (body,pos)) (hadv : advance mint body pos = some (body',pos',effect))
    (hfresh : (body'.ids.map Prod.snd).Nodup) : Sound press (s.after body' pos' effect) := by
  have hmem := h.memory body pos hrun
  rcases advance_cases hadv with ⟨turn,got,w,rfl,hw,hcall,rfl,rfl,rfl⟩ |
    ⟨turn,got,w,call,rfl,hw,hcall,r,hr,hname,rfl,rfl,rfl⟩ |
    ⟨turn,got,w,call,name,found,rfl,hw,hcall,hname,hfound,rfl,rfl,rfl⟩ |
    ⟨turn,got,w,call,name,rfl,hw,hcall,hname,hfound,rfl,rfl,rfl⟩ | ⟨turn,got,rfl,rfl,rfl,rfl⟩ | ⟨rfl,rfl,rfl,rfl⟩
  · -- the last of a write's requests is answered
    obtain ⟨rfl,hbefore,-⟩ := hmem
    refine h.quiet ⟨rfl,?_⟩
    rw [before_succ hw]
    exact (Nat.add_le_add_left (List.getElem?_eq_none_iff.mp hcall) _).trans hbefore
  · obtain ⟨rfl,-,-⟩ := id hmem
    exact h.sends hmem hw hcall hname hr
  · obtain ⟨rfl,hbefore,hgot⟩ := hmem
    exact h.quiet ⟨rfl,hbefore,hgot.snoc hw hcall hname hfound⟩
  · obtain ⟨rfl,hbefore,hgot⟩ := hmem
    refine h.quiet ⟨⟨_,_,rfl⟩,hfresh,hbefore,hgot.mono.snoc hw hcall hname ?_⟩
    rw [List.lookup_append,hfound]
    simp
  · obtain ⟨⟨full,id,rfl⟩,hdistinct,hbefore,hgot⟩ := hmem
    exact h.keep rfl rfl rfl hdistinct h.started ⟨rfl,hbefore,hgot⟩
  · obtain ⟨rfl,hbefore⟩ := hmem
    exact h.keep rfl rfl (List.append_nil _).symm h.distinct (h.writes ▸ hbefore)
      ⟨rfl,hbefore,fun w call _ _ => by simp⟩

theorem Sound.step (hparts : (press.writes.map (·.part)).Nodup) {a : Act} (h : Sound press s)
    (hstep : s.step a = some s') : Sound press s' := by
  cases a with
  | works mint =>
    dsimp only [Sender.step] at hstep
    split at hstep
    · cases hstep
    · rename_i body pos hrun
      split at hstep
      · cases hstep
      · rename_i body' pos' effect hadv
        split at hstep
        · rename_i hfresh
          cases hstep
          exact h.works hrun hadv hfresh
        · cases hstep
  | serve r =>
    dsimp only [Sender.step] at hstep
    split at hstep
    · rename_i hr
      cases hstep
      exact h.serve hparts hr
    · cases hstep
  | answer =>
    dsimp only [Sender.step] at hstep
    split at hstep
    · rename_i body turn r hrun
      split at hstep
      · rename_i hany
        cases hstep
        exact h.answer hparts hrun hany
      · cases hstep
    · cases hstep
  | stop =>
    cases hstep
    exact h.stop
  | resume =>
    dsimp only [Sender.step] at hstep
    split at hstep
    · cases hstep
      exact h.resume
    · cases hstep

/-- A press stopped anywhere and sent on is recorded once: each of its requests goes out
with the same ids and moment at every attempt, the acts the server has are its first
requests in order, each once, and all of them when its send ends. -/
theorem press_recorded_once (hids : (press.ids.map Prod.snd).Nodup) (hdone : press.done = 0)
    (hparts : (press.writes.map (·.part)).Nodup) {es : List Act}
    (hrun : Runs.run Sender.step (Sender.kept press) es = some s) :
    (∀ r ∈ s.sent, ∀ r' ∈ s.sent, r.write = r'.write → r.turn = r'.turn → r = r') ∧
    s.recorded.map Request.spot <+: spots press.writes ∧ (∀ r ∈ s.recorded, r ∈ s.sent) ∧
    ∀ body pos, s.running = some (body,pos) → ended body pos = true →
      s.recorded.map Request.spot = spots press.writes := by
  have h : Sound press s :=
    Runs.run_inv (Sound.kept hids hdone) (fun _ _ _ ht he => ht.step hparts he) hrun
  refine ⟨fun r hr r' hr' hw ht => (h.asked r hr).unique (h.asked r' hr') (Prod.ext hw ht),h.inOrder,h.mine,
    fun body pos hbp hend => ?_⟩
  rw [ended,Bool.and_eq_true,decide_eq_true_eq,Option.isNone_iff_eq_none] at hend
  obtain ⟨rfl,hnone⟩ := hend
  obtain ⟨rfl,hbefore,-⟩ := h.memory _ _ hbp
  rw [before_end hnone,h.writes] at hbefore
  exact h.inOrder.eq_of_length_le (by simpa using hbefore)

/-- A pick of four into a carton from the bench. -/
def onePick : HeldPress :=
  ⟨"Put in 4","SO-1","2026-08-04T09:00:00Z",[],[⟨['0',':','c','e','l','l'],.pickInto 1 2 3 4⟩],0⟩

def claimed : Request :=
  ⟨⟨['0',':','c','e','l','l'],.pickInto 1 2 3 4⟩,0,⟨"/allocations",[.allocation],false⟩,[17],none⟩

def picked : Request :=
  ⟨⟨['0',':','c','e','l','l'],.pickInto 1 2 3 4⟩,1,⟨"/picks",[.event],true⟩,[12],some "2026-08-04T09:00:00Z"⟩

/-- Its claim is taken by the server and the answer lost; the device is loaded again and
the press sent on. -/
def lostAnswer : List Act :=
  let works := Act.works fun name => Fin.ofNat _ name.length
  [.resume,works,works,works,.serve claimed,.stop,.resume,works,works,.serve claimed,.answer,works,works,works,
    .serve picked,.answer,works,works]

theorem press_recorded_once_lost : ∃ s, Runs.run Sender.step (Sender.kept onePick) lostAnswer = some s ∧
    s.sent = [claimed,claimed,picked] ∧ s.recorded.map Request.spot = spots onePick.writes := by
  have hall : (Runs.run Sender.step (Sender.kept onePick) lostAnswer).any
      (fun s => decide (s.sent = [claimed,claimed,picked] ∧ s.running.any (fun r => ended r.1 r.2) = true)) = true := by
    decide +kernel
  obtain ⟨s,hrun,hend⟩ := Runs.run_passes _ hall
  obtain ⟨hsent,hany⟩ := of_decide_eq_true hend
  obtain ⟨⟨body,pos⟩,hrunning,hended⟩ := Runs.run_passes _ hany
  have honce := press_recorded_once (by decide) rfl (by decide) hrun
  exact ⟨s,hrun,hsent,honce.2.2.2 body pos hrunning hended⟩

end Outbox
end Spork
