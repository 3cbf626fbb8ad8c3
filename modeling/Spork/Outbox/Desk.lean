import Spork.Outbox.Tabs

/-! Presses of the pack bench kept and sent from several tabs: `sendOn` as the send of the
outboxes, and the requests that go out (client/app/outbound/pack/usePackBench.ts). -/
namespace Spork
namespace Outbox

open Bench (Uuid)

variable {ι : Type} [DecidableEq ι]

/-- The tabs, and each request sent with the key of its press. -/
structure Desk (ι : Type) where
  world : World ι HeldPress Pos Unit
  requests : List (String × Request)

inductive Deed (ι : Type)
  | box (e : Event ι HeldPress Pos Unit)
  | works (tab : ι) (press : Option ℕ) (mint : Text → Uuid)
  | answer (tab : ι) (press : Option ℕ)

def Desk.over (kept : List (Held HeldPress)) : Desk ι := ⟨World.over kept,[]⟩

/-- A send steps as `sendOn` does, and lands once it has ended. -/
def Desk.allows (d : Desk ι) : Event ι HeldPress Pos Unit → Bool
  | .works _ _ _ _ _ => false
  | .nowEnds i n (.landed _) => (d.world.sending i (some n)).any fun s => ended s.entry.body s.pos
  | .drainEnds i (.landed _) => (d.world.sending i none).any fun s => ended s.entry.body s.pos
  | _ => true

def Effect.kept : Effect → Bool
  | .keep => true
  | _ => false

/-- The request that goes out. -/
def Effect.sent (key : String) : Effect → List (String × Request)
  | .sends r => [(key,r)]
  | _ => []

def Desk.step (d : Desk ι) : Deed ι → Option (Desk ι)
  | .box e => if d.allows e then (Outbox.step d.world e).map fun w => {d with world := w} else none
  | .works i p mint =>
    (d.world.sending i p).bind fun s =>
      (advance mint s.entry.body s.pos).bind fun (body,pos,effect) =>
        (Outbox.step d.world (.works i p body pos effect.kept)).map fun w =>
          ⟨w,d.requests++effect.sent s.entry.key⟩
  | .answer i p =>
    (d.world.sending i p).bind fun s =>
      (answered s.pos).bind fun pos =>
        (Outbox.step d.world (.works i p s.entry.body pos false)).map fun w => {d with world := w}

/-- What a deed asks of the state it comes to: see `Orderly`. -/
def Desk.Orderly (known : List String) (d : Desk ι) : Deed ι → Prop
  | .box e => Outbox.Orderly known d.world e
  | _ => True

instance [Fintype ι] (known : List String) (d : Desk ι) (a : Deed ι) : Decidable (d.Orderly known a) := by
  cases a <;> unfold Desk.Orderly <;> infer_instance

/-- All that a deed can do: a call or its end, a step of a send, or an answer to one. -/
theorem Desk.step_cases {d d' : Desk ι} {a : Deed ι} (h : d.step a = some d') :
    (∃ e, a = .box e ∧ (∀ i p body pos keep, e ≠ .works i p body pos keep) ∧ Turn d.world e d'.world ∧
      d'.requests = d.requests) ∨
    (∃ i p mint s body pos effect, a = .works i p mint ∧ d.world.sending i p = some s ∧
      advance mint s.entry.body s.pos = some (body,pos,effect) ∧
      Turn d.world (.works i p body pos effect.kept) d'.world ∧
      d'.world = d.world.works i p ⟨{s.entry with body := body},pos⟩ effect.kept ∧
      d'.requests = d.requests++effect.sent s.entry.key) ∨
    ∃ i p s turn r, a = .answer i p ∧ d.world.sending i p = some s ∧ s.pos = .awaits turn r ∧
      Turn d.world (.works i p s.entry.body (.asks (turn+1) []) false) d'.world ∧
      d'.world = d.world.works i p ⟨s.entry,.asks (turn+1) []⟩ false ∧ d'.requests = d.requests := by
  cases a with
  | box e =>
    dsimp only [Desk.step] at h
    split at h
    · rename_i hallows
      obtain ⟨w,hw,rfl⟩ := Option.map_eq_some_iff.mp h
      refine Or.inl ⟨e,rfl,fun i p body pos keep he => ?_,step_turn hw,rfl⟩
      rw [he] at hallows
      cases hallows
    · cases h
  | works i p mint =>
    obtain ⟨s,hs,h⟩ := Option.bind_eq_some_iff.mp h
    obtain ⟨⟨body,pos,effect⟩,hadv,h⟩ := Option.bind_eq_some_iff.mp h
    obtain ⟨w,hw,rfl⟩ := Option.map_eq_some_iff.mp h
    refine Or.inr (Or.inl ⟨i,p,mint,s,body,pos,effect,rfl,hs,hadv,step_turn hw,?_,rfl⟩)
    obtain ⟨t,ht,rfl⟩ := Option.map_eq_some_iff.mp hw
    cases hs.symm.trans ht
    rfl
  | answer i p =>
    obtain ⟨s,hs,h⟩ := Option.bind_eq_some_iff.mp h
    obtain ⟨pos,hpos,h⟩ := Option.bind_eq_some_iff.mp h
    obtain ⟨w,hw,rfl⟩ := Option.map_eq_some_iff.mp h
    obtain ⟨turn,r,hawaits,rfl⟩ : ∃ turn r, s.pos = .awaits turn r ∧ pos = .asks (turn+1) [] := by
      cases hp : s.pos with
      | awaits turn r =>
        rw [hp] at hpos
        cases hpos
        exact ⟨turn,r,rfl,rfl⟩
      | _ =>
        rw [hp] at hpos
        cases hpos
    refine Or.inr (Or.inr ⟨i,p,s,turn,r,rfl,hs,hawaits,step_turn hw,?_,rfl⟩)
    obtain ⟨t,ht,rfl⟩ := Option.map_eq_some_iff.mp hw
    cases hs.symm.trans ht
    rfl

/-- What a send has made of its press and not kept: an id just minted, a write just counted. -/
def InStep (stored body : HeldPress) : Pos → Prop
  | .minted _ _ => ∃ more, body = {stored with ids := stored.ids++more}
  | .counted => body = {stored with done := stored.done+1}
  | _ => body = stored

/-- The ids handed to a request being made are its press's. -/
def Handed (body : HeldPress) : Pos → Prop
  | .asks turn got => Got body turn got
  | .minted turn got => Got body turn got
  | _ => True

/-- A request is asked as a press asks it, by what the press has minted. -/
def AskedOf (body : HeldPress) (r : Request) : Prop := Asked body body.ids r

/-- What holds at a desk where every deed is orderly: a press has one sender, which is
where what is kept of it says, and its requests carry the ids kept. -/
structure Orders (known : List String) (d : Desk ι) : Prop where
  lone : Lone known d.world
  handed : ∀ i p s, d.world.sending i p = some s → Handed s.entry.body s.pos
  inStep : ∀ i p s x, d.world.sending i p = some s → x ∈ d.world.store → x.key = s.entry.key →
    InStep x.body s.entry.body s.pos
  fromPut : ∀ q ∈ d.requests, q.1 ∈ firstPut known d.world.log
  ofKept : ∀ q ∈ d.requests, ∀ x ∈ d.world.store, x.key = q.1 → AskedOf x.body q.2
  ofSender : ∀ q ∈ d.requests, ∀ i p s, d.world.sending i p = some s → s.entry.key = q.1 → AskedOf s.entry.body q.2
  once : ∀ q ∈ d.requests, ∀ q' ∈ d.requests, q.1 = q'.1 → q.2.spot = q'.2.spot → q.2 = q'.2

variable {known : List String} {d d' : Desk ι} {e : Event ι HeldPress Pos Unit}

omit [DecidableEq ι] in
theorem orders_over {kept : List (Held HeldPress)} (hkeys : (keys kept).Nodup) :
    Orders (keys kept) (Desk.over kept : Desk ι) := by
  have hnone : ∀ i p s, (Desk.over kept : Desk ι).world.sending i p = some s → False := fun i p s hs => by
    cases p <;> cases hs
  exact ⟨lone_over hkeys,fun i p s hs => (hnone i p s hs).elim,fun i p s x hs => (hnone i p s hs).elim,by simp [Desk.over],
    by simp [Desk.over],by simp [Desk.over],by simp [Desk.over]⟩

/-- A call, or a send's end. -/
theorem Orders.box (h : Orders known d) (hok : Outbox.Orderly known d.world e)
    (hno : ∀ i p body pos keep, e ≠ .works i p body pos keep) (hturn : Turn d.world e d'.world)
    (hreq : d'.requests = d.requests) : Orders known d' := by
  have hlone := h.lone.step hok hturn
  -- what is kept was, by its key and body, or is put now under a new key
  have hstore : ∀ x ∈ d'.world.store, (∃ y ∈ d.world.store, y.key = x.key ∧ y.body = x.body) ∨
      x.key ∉ firstPut known d.world.log ∧ (e = .put x ∨ ∃ i n, e = .now i n x) := fun x hx => by
    rcases turn_kept hturn hx with ⟨y,hy,hkey,-,hbody⟩ | hput | ⟨i,p,s,body,pos,he,-⟩
    · exact Or.inl ⟨y,hy,hkey,hbody⟩
    · refine Or.inr ⟨?_,hput⟩
      rcases hput with rfl | ⟨i,n,rfl⟩ <;> exact hok
    · exact absurd he (hno i p body pos true)
  -- what is being sent was, or starts from what is kept, or is a new press
  have hsend : ∀ i p s, d'.world.sending i p = some s → d.world.sending i p = some s ∨
      s.pos = default ∧ ((∃ n, e = .now i n s.entry) ∨ d.world.store = d'.world.store ∧
        (∃ x ∈ d.world.store, x.key = s.entry.key) ∧
        ∀ x ∈ d.world.store, x.key = s.entry.key → x.body = s.entry.body) := fun i p s hs => by
    rcases turn_runs hok hturn hs with ⟨t,ht,-,rfl | ⟨body,pos,keep,he⟩⟩ | ⟨n,he,-,hpos,-⟩ |
      ⟨-,-,hpos,hsame,-,-,-,hkept,hbody⟩
    · exact Or.inl ht
    · exact absurd he (hno i p body pos keep)
    · exact Or.inr ⟨hpos,Or.inl ⟨n,he⟩⟩
    · exact Or.inr ⟨hpos,Or.inr ⟨hsame,hkept,hbody⟩⟩
  refine ⟨hlone,fun i p s hs => ?_,fun i p s x hs hx hkey => ?_,fun q hq => ?_,fun q hq x hx hkey => ?_,
    fun q hq i p s hs hkey => ?_,fun q hq q' hq' => ?_⟩
  · rcases hsend i p s hs with hold | ⟨hpos,-⟩
    · exact h.handed i p s hold
    · rw [hpos]
      exact fun w call _ _ => by simp
  · rcases hsend i p s hs with hold | ⟨hpos,⟨n,rfl⟩ | ⟨hsame,-,hbody⟩⟩
    · rcases hstore x hx with ⟨y,hy,hykey,hybody⟩ | ⟨hnew,-⟩
      · rw [← hybody]
        exact h.inStep i p s y hold hy (hykey.trans hkey)
      · rw [hkey] at hnew
        exact absurd (h.lone.sent hold) hnew
    · rw [hpos]
      rcases hstore x hx with ⟨y,hy,hykey,-⟩ | ⟨-,hput⟩
      · exact absurd (hykey.trans hkey ▸ h.lone.stored hy) hok
      · rcases hput with heq | ⟨j,m,heq⟩
        · cases heq
        · obtain ⟨-,-,rfl⟩ := Event.now.inj heq
          rfl
    · rw [hpos]
      exact (hbody x (hsame ▸ hx) hkey).symm
  · rw [hreq] at hq
    exact firstPut_grows hturn (h.fromPut q hq)
  · rw [hreq] at hq
    rcases hstore x hx with ⟨y,hy,hykey,hybody⟩ | ⟨hnew,-⟩
    · rw [← hybody]
      exact h.ofKept q hq y hy (hykey.trans hkey)
    · exact absurd (hkey ▸ h.fromPut q hq) hnew
  · rw [hreq] at hq
    rcases hsend i p s hs with hold | ⟨-,⟨n,rfl⟩ | ⟨-,⟨x,hx,hxkey⟩,hbody⟩⟩
    · exact h.ofSender q hq i p s hold hkey
    · exact absurd (hkey ▸ h.fromPut q hq) hok
    · rw [← hbody x hx hxkey]
      exact h.ofKept q hq x hx (hxkey.trans hkey)
  · rw [hreq] at hq hq'
    exact h.once q hq q' hq'

/-- A step of a send: what it makes of its press, what of that it keeps, and the request it
sends, where it has one sender and each step keeps what the next sends. -/
theorem Orders.sends (h : Orders known d) {i : ι} {p : Option ℕ} {s : Sending HeldPress Pos} {body : HeldPress}
    {pos : Pos} {keep : Bool} {more : List (String × Request)} (hs : d.world.sending i p = some s)
    (hturn : Turn d.world (.works i p body pos keep) d'.world)
    (hworld : d'.world = d.world.works i p ⟨{s.entry with body := body},pos⟩ keep)
    (hreq : d'.requests = d.requests++more) (hhanded : Handed body pos)
    (hstep : keep = false → ∀ x ∈ d.world.store, x.key = s.entry.key → InStep x.body body pos)
    (hkept : keep = true → InStep body body pos)
    (hasked : ∀ r, AskedOf s.entry.body r → AskedOf body r)
    (hmore : ∀ q ∈ more, q.1 = s.entry.key ∧ AskedOf s.entry.body q.2 ∧ ∀ q' ∈ more, q = q')
    (hwait : more ≠ [] → ∀ x ∈ d.world.store, x.key = s.entry.key → x.body = s.entry.body) : Orders known d' := by
  have hlone := h.lone.step (orderly_works i p body pos keep) hturn
  have hsend : ∀ j q t, d'.world.sending j q = some t → j = i ∧ q = p ∧ t = ⟨{s.entry with body := body},pos⟩ ∨
      d.world.sending j q = some t ∧ t.entry.key ≠ s.entry.key := fun j q t ht => by
    rw [hworld] at ht
    rcases World.sending_works ht with hmine | ⟨hne,hold⟩
    · exact Or.inl hmine
    · refine Or.inr ⟨hold,fun hkey => ?_⟩
      obtain ⟨hj,hq⟩ := h.lone.one j q t i p s hold hs hkey
      exact hne.elim (fun hn => hn hj) fun hn => hn hq
  have hstore : ∀ x ∈ d'.world.store, x ∈ d.world.store ∧ (keep = true → x.key ≠ s.entry.key) ∨
      keep = true ∧ x = {s.entry with body := body} := fun x hx => by
    rw [hworld] at hx
    cases keep with
    | false => exact Or.inl ⟨by simpa [World.works] using hx,fun hk => by cases hk⟩
    | true =>
      have hmem : x ∈ replace {s.entry with body := body} d.world.store := by simpa [World.works,update] using hx
      have hnodup : (keys d.world.store).Nodup := h.lone.order.1.nodup h.lone.order.2
      rcases mem_replace_of_nodup hnodup hmem with ⟨rfl,-⟩ | ⟨hold,hne⟩
      · exact Or.inr ⟨rfl,rfl⟩
      · exact Or.inl ⟨hold,fun _ => hne⟩
  have hmine : ∀ q ∈ d'.requests, q.1 = s.entry.key → AskedOf s.entry.body q.2 := fun q hq hkey => by
    rw [hreq] at hq
    rcases List.mem_append.mp hq with hq | hq
    · exact h.ofSender q hq i p s hs hkey.symm
    · exact (hmore q hq).2.1
  have hlog : d'.world.log = d.world.log := by rw [hworld,World.works_log]
  refine ⟨hlone,fun j q t ht => ?_,fun j q t x ht hx hkey => ?_,fun q hq => ?_,fun q hq x hx hkey => ?_,
    fun q hq j r t ht hkey => ?_,fun q hq q' hq' hkey hspot => ?_⟩
  · rcases hsend j q t ht with ⟨-,-,rfl⟩ | ⟨hold,-⟩
    · exact hhanded
    · exact h.handed j q t hold
  · rcases hsend j q t ht with ⟨-,-,rfl⟩ | ⟨hold,hne⟩
    · rcases hstore x hx with ⟨hxold,hne⟩ | ⟨hk,rfl⟩
      · exact hstep (Bool.eq_false_iff.mpr fun hk => hne hk hkey) x hxold hkey
      · exact hkept hk
    · rcases hstore x hx with ⟨hxold,-⟩ | ⟨-,rfl⟩
      · exact h.inStep j q t x hold hxold hkey
      · exact absurd hkey.symm hne
  · rw [hlog]
    rw [hreq] at hq
    rcases List.mem_append.mp hq with hq | hq
    · exact h.fromPut q hq
    · rw [(hmore q hq).1]
      exact h.lone.sent hs
  · rcases hstore x hx with ⟨hxold,-⟩ | ⟨-,rfl⟩
    · rw [hreq] at hq
      rcases List.mem_append.mp hq with hq | hq
      · exact h.ofKept q hq x hxold hkey
      · have hq' := hmore q hq
        rw [hwait (List.ne_nil_of_mem hq) x hxold (hkey.trans hq'.1)]
        exact hq'.2.1
    · exact hasked _ (hmine q hq hkey.symm)
  · rcases hsend j r t ht with ⟨-,-,rfl⟩ | ⟨hold,hne⟩
    · exact hasked _ (hmine q hq hkey.symm)
    · rw [hreq] at hq
      rcases List.mem_append.mp hq with hq | hq
      · exact h.ofSender q hq j r t hold hkey
      · exact absurd (hkey.trans (hmore q hq).1) hne
  · by_cases hk : q.1 = s.entry.key
    · exact (hmine q hq hk).unique (hmine q' hq' (hkey.symm.trans hk)) hspot
    · rw [hreq] at hq hq'
      have hold : ∀ x ∈ d.requests++more, x.1 = q.1 → x ∈ d.requests := fun x hx hxkey => by
        rcases List.mem_append.mp hx with hx | hx
        · exact hx
        · exact absurd (hxkey.symm.trans (hmore x hx).1) hk
      exact h.once q (hold q hq rfl) q' (hold q' hq' hkey.symm) hkey hspot

theorem Orders.works (h : Orders known d) {i : ι} {p : Option ℕ} {mint : Text → Uuid} {s : Sending HeldPress Pos}
    {body : HeldPress} {pos : Pos} {effect : Effect} (hs : d.world.sending i p = some s)
    (hadv : advance mint s.entry.body s.pos = some (body,pos,effect))
    (hturn : Turn d.world (.works i p body pos effect.kept) d'.world)
    (hworld : d'.world = d.world.works i p ⟨{s.entry with body := body},pos⟩ effect.kept)
    (hreq : d'.requests = d.requests++effect.sent s.entry.key) : Orders known d' := by
  have hhanded := h.handed i p s hs
  have hstep := fun x hx hkey => h.inStep i p s x hs hx hkey
  generalize s.pos = was at hadv hhanded hstep
  rcases advance_cases hadv with ⟨turn,got,w,rfl,hw,hcall,rfl,rfl,rfl⟩ |
    ⟨turn,got,w,call,rfl,hw,hcall,r,hr,hname,rfl,rfl,rfl⟩ |
    ⟨turn,got,w,call,name,found,rfl,hw,hcall,hname,hfound,rfl,rfl,rfl⟩ |
    ⟨turn,got,w,call,name,rfl,hw,hcall,hname,hfound,rfl,rfl,rfl⟩ | ⟨turn,got,rfl,rfl,rfl,rfl⟩ | ⟨rfl,rfl,rfl,rfl⟩
  · exact h.sends hs hturn hworld hreq trivial (fun _ x hx hkey => by rw [← hstep x hx hkey]; rfl) (fun hk => by cases hk)
      (fun r hr => ⟨hr.call,hr.ids,hr.moment⟩) (by simp [Effect.sent]) (by simp [Effect.sent])
  · have hsame : ∀ x ∈ d.world.store, x.key = s.entry.key → s.entry.body = x.body := hstep
    have hasked : AskedOf s.entry.body r := by
      subst hr
      refine ⟨hcall,?_,rfl⟩
      rw [hhanded w call hw hcall,List.take_of_length_le (List.getElem?_eq_none_iff.mp hname)]
    exact h.sends hs hturn hworld hreq trivial (fun _ => hsame) (fun hk => by cases hk) (fun r hr => hr)
      (by simpa [Effect.sent] using hasked) fun _ x hx hkey => (hsame x hx hkey).symm
  · exact h.sends hs hturn hworld hreq (Got.snoc hhanded hw hcall hname hfound) (fun _ => hstep) (fun hk => by cases hk)
      (fun r hr => hr) (by simp [Effect.sent]) (by simp [Effect.sent])
  · refine h.sends hs hturn hworld hreq (Got.snoc (Got.mono hhanded) hw hcall hname ?_)
      (fun _ x hx hkey => ⟨[(partOf w.part name,mint (partOf w.part name))],by rw [← hstep x hx hkey]⟩)
      (fun hk => by cases hk) (fun r hr => ⟨hr.call,(Asked.mono hr).ids,hr.moment⟩) (by simp [Effect.sent])
      (by simp [Effect.sent])
    simp [List.lookup_append,hfound]
  · exact h.sends hs hturn hworld hreq hhanded (fun hk => by cases hk) (fun _ => rfl) (fun r hr => hr) (by simp [Effect.sent])
      (by simp [Effect.sent])
  · exact h.sends hs hturn hworld hreq (fun w call _ _ => by simp) (fun hk => by cases hk) (fun _ => rfl) (fun r hr => hr)
      (by simp [Effect.sent]) (by simp [Effect.sent])

theorem Orders.answer (h : Orders known d) {i : ι} {p : Option ℕ} {s : Sending HeldPress Pos} {turn : ℕ} {r : Request}
    (hs : d.world.sending i p = some s) (hpos : s.pos = .awaits turn r)
    (hturn : Turn d.world (.works i p s.entry.body (.asks (turn+1) []) false) d'.world)
    (hworld : d'.world = d.world.works i p ⟨s.entry,.asks (turn+1) []⟩ false) (hreq : d'.requests = d.requests) :
    Orders known d' := by
  refine h.sends hs hturn hworld (hreq.trans (List.append_nil _).symm) (fun w call _ _ => by simp)
    (fun _ x hx hkey => ?_) (fun hk => by cases hk) (fun r hr => hr) (by simp) (by simp)
  have hstep := h.inStep i p s x hs hx hkey
  rw [hpos] at hstep
  exact hstep

theorem Orders.step (h : Orders known d) {a : Deed ι} (hok : d.Orderly known a) (hstep : d.step a = some d') :
    Orders known d' := by
  rcases Desk.step_cases hstep with ⟨e,rfl,hno,hturn,hreq⟩ |
    ⟨i,p,mint,s,body,pos,effect,rfl,hs,hadv,hturn,hworld,hreq⟩ | ⟨i,p,s,turn,r,rfl,hs,hpos,hturn,hworld,hreq⟩
  · exact h.box hok hno hturn hreq
  · exact h.works hs hadv hturn hworld hreq
  · exact h.answer hs hpos hturn hworld hreq

theorem orders_run {kept : List (Held HeldPress)} (hkeys : (keys kept).Nodup) {as : List (Deed ι)}
    (hok : Runs.Meets Desk.step (Desk.Orderly (keys kept)) (Desk.over kept) as)
    (hrun : Runs.run Desk.step (Desk.over kept) as = some d) : Orders (keys kept) d :=
  Runs.run_keeps (orders_over hkeys) (fun _ _ _ ht hok he => ht.step hok he) hok hrun

/-- Where every press has a key of its own, and a drain comes to acts no other tab is
sending and as it listed them, an act has one sender, which starts from what is kept of it,
and no write of a press goes out under two ids. -/
theorem sent_by_one {kept : List (Held HeldPress)} (hkeys : (keys kept).Nodup) {as : List (Deed ι)} {a : Deed ι}
    (hok : Runs.Meets Desk.step (Desk.Orderly (keys kept)) (Desk.over kept) (as++[a]))
    (hrun : Runs.run Desk.step (Desk.over kept) as = some d) (hstep : d.step a = some d') :
    (∀ i p s j q t, d'.world.sending i p = some s → d'.world.sending j q = some t → s.entry.key = t.entry.key →
      i = j ∧ p = q) ∧
    (∀ i p s, d'.world.sending i p = some s → d.world.sending i p = none →
      ∃ x ∈ d'.world.store, x.key = s.entry.key ∧ x.body = s.entry.body ∧ s.pos = default) ∧
    ∀ key r r', (key,r) ∈ d'.requests → (key,r') ∈ d'.requests → r.write = r'.write → r.turn = r'.turn →
      r.ids = r'.ids := by
  obtain ⟨hbefore,hlast⟩ := hok.append hrun
  have h := orders_run hkeys hbefore hrun
  have h' := orders_run hkeys hok (Runs.run_snoc hrun hstep)
  refine ⟨h'.lone.one,fun i p s hs hfree => ?_,fun key r r' hr hr' hw ht => ?_⟩
  · rcases Desk.step_cases hstep with ⟨e,rfl,-,hturn,-⟩ | ⟨j,q,mint,t,body,pos,effect,rfl,-,-,hturn,-,-⟩ |
      ⟨j,q,t,turn,r,rfl,-,-,hturn,-,-⟩
    · exact starts_from_kept h.lone hlast.1 hturn hs hfree
    · exact starts_from_kept h.lone (orderly_works ..) hturn hs hfree
    · exact starts_from_kept h.lone (orderly_works ..) hturn hs hfree
  · exact congrArg Request.ids (h'.once (key,r) hr (key,r') hr' rfl (Prod.ext hw ht))

/-- Two moves between cartons, as one press. -/
def twoMoves : Held HeldPress :=
  ⟨"p","me","Me",⟨"Move","SO-1","2026-08-04T09:00:00Z",[],
    [⟨['0'],.repack 1 (.package 2) (.package 3) 4⟩,⟨['1'],.repack 1 (.package 3) (.package 2) 4⟩],0⟩,none⟩

/-- A request's ids minted, kept and sent. -/
def mints (tab : Bool) (press : Option ℕ) (id : Uuid) : List (Deed Bool) :=
  List.replicate 3 (.works tab press fun _ => id)

/-- Its answer heard, and its write counted and kept. -/
def lands (tab : Bool) (press : Option ℕ) : List (Deed Bool) :=
  [.answer tab press,.works tab press fun _ => 0,.works tab press fun _ => 0]

/-- The press is made in one tab, which gets no answer, is sent on by a drain, and gone. -/
def sentOn : List (Deed Bool) :=
  .box (.now false 0 twoMoves) :: mints false (some 0) 1++
    [.box (.nowEnds false 0 (.failed ⟨none,none⟩)),.box (.drain true "me"),.box (.next true)]++
    List.replicate 2 (.works true none fun _ => 9)++lands true none

theorem sent_by_one_twoMoves : ∃ d d' : Desk Bool, Runs.run Desk.step (Desk.over []) sentOn = some d ∧
    d.step (.works true none fun _ => 2) = some d' ∧ d'.requests.length = 2 ∧
    ∀ key r r', (key,r) ∈ d'.requests → (key,r') ∈ d'.requests → r.write = r'.write → r.turn = r'.turn →
      r.ids = r'.ids := by
  have hok : Runs.Meets Desk.step (Desk.Orderly (keys ([] : List (Held HeldPress)))) (Desk.over [] : Desk Bool)
      (sentOn++[.works true none fun _ => 2]) := by decide +kernel
  have hall : (Runs.run Desk.step (Desk.over [] : Desk Bool) (sentOn++[.works true none fun _ => 2])).any
      (fun d => decide (d.requests.length = 2)) = true := by decide +kernel
  obtain ⟨d',hrun',hlen⟩ := Runs.run_passes _ hall
  obtain ⟨d,hrun,hstep⟩ := Runs.run_of_snoc hrun'
  exact ⟨d,d',hrun,hstep,of_decide_eq_true hlen,(sent_by_one (by decide) hok hrun hstep).2.2⟩

/-- The bench is opened in a second tab while the first is sending the press: its drain
sends the press too, and each goes on to mint the second write's id. -/
def openedTwice : List (Deed Bool) :=
  .box (.now false 0 twoMoves) :: mints false (some 0) 1++[.box (.drain true "me"),.box (.next true)]++
    List.replicate 2 (.works true none fun _ => 9)++lands false (some 0)++mints false (some 0) 2++
    lands true none++mints true none 3

/-- Two tabs send one press at once, and its second write goes out under two ids. -/
theorem sent_twice : ∃ d : Desk Bool, Runs.run Desk.step (Desk.over []) openedTwice = some d ∧
    (∃ s t, d.world.sending false (some 0) = some s ∧ d.world.sending true none = some t ∧ s.entry.key = t.entry.key) ∧
    ∃ r r', ("p",r) ∈ d.requests ∧ ("p",r') ∈ d.requests ∧ r.write = r'.write ∧ r.turn = r'.turn ∧ r.ids = [2] ∧
      r'.ids = [3] := by
  have hall : (Runs.run Desk.step (Desk.over [] : Desk Bool) openedTwice).any (fun d => decide (
      (d.world.sending false (some 0)).any (fun s => (d.world.sending true none).any fun t => s.entry.key == t.entry.key) = true ∧
      ∃ q ∈ d.requests, ∃ q' ∈ d.requests, q.1 = "p" ∧ q'.1 = "p" ∧ q.2.write = q'.2.write ∧ q.2.turn = q'.2.turn ∧
        q.2.ids = [2] ∧ q'.2.ids = [3])) = true := by decide +kernel
  obtain ⟨d,hrun,htest⟩ := Runs.run_passes _ hall
  obtain ⟨hsends,⟨key,r⟩,hr,⟨key',r'⟩,hr',rfl,rfl,htold⟩ := of_decide_eq_true htest
  obtain ⟨s,hs,hany⟩ := Runs.run_passes _ hsends
  obtain ⟨t,ht,hkey⟩ := Runs.run_passes _ hany
  exact ⟨d,hrun,⟨s,t,hs,ht,beq_iff_eq.mp hkey⟩,r,r',hr,hr',htold⟩

end Outbox
end Spork
