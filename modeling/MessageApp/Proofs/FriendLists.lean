import MessageApp.Proofs.Audience
import MessageApp.Proofs.Readers
import MessageApp.Proofs.Wrote

/-!
# Who is in the list of friends

A document of `Friends` is written when a friendship or a group begins, and stays. So once these
documents have landed, a snapshot of them fills the lists with exactly those friends and groups of
the account that have been encoded, in the order of their ids, and the friends of both sides have
each other in their lists (`lists_exact`).
-/

namespace MessageApp

/-- The write of a friend or a group into `Friends`. -/
def friendWrite (uid id : String) (name : Option String) (isGroupChat : Bool) : AppWrite :=
  .write (.setData (.friends uid id) (friendData name isGroupChat) false)

namespace Process

variable {p q : Process} {pe : Event} {ws : List AppWrite} {uid id : String}
  {name : Option String} {isGroupChat : Bool}

/-- Who becomes a friend, or a member of a group, is written into `Friends`. -/
theorem Effect.write_friend (h : Effect p pe q ws)
    (he : .friend uid id name isGroupChat ∈ p.encodes pe) :
    friendWrite uid id name isGroupChat ∈ ws := by
  cases mem_encodes_iff.1 he with
  | asked hu hself =>
    cases h with
    | agreeClicked hi hws =>
      obtain rfl := Option.some.inj (hi.symm.trans hself)
      rw [hu] at hws
      obtain rfl := Option.some.inj hws
      exact List.mem_of_getElem? (i := 2) rfl
  | agreed hu hself =>
    cases h with
    | agreeClicked hi hws =>
      obtain rfl := Option.some.inj (hi.symm.trans hself)
      rw [hu] at hws
      obtain rfl := Option.some.inj hws
      exact List.mem_of_getElem? (i := 3) rfl
  | member hj hemail hid =>
    cases h with
    | groupAdded hj' hws =>
      obtain ⟨rfl, rfl⟩ := Prod.mk.inj (Option.some.inj (hj'.symm.trans hj))
      rw [MessageApp.groupAdded, hemail] at hws
      obtain rfl := Option.some.inj hws
      refine List.mem_map.2 ⟨_, ?_, rfl⟩
      rcases List.mem_cons.1 hid with rfl | hid
      · exact List.mem_cons_self
      · exact List.mem_cons_of_mem _ (List.mem_map.2 ⟨uid, hid, rfl⟩)

/-- What an event writes into `Friends` is who becomes a friend, or a member of a group. -/
theorem Wrote.friend {x : AppWrite} (h : p.Wrote pe (.friends uid id) x) :
    ∃ name isGroupChat, .friend uid id name isGroupChat ∈ p.encodes pe ∧
      x = friendWrite uid id name isGroupChat := by
  cases h with
  | friends he => exact ⟨_, _, he, rfl⟩
  | chat _ hchat => exact hchat.elim

/-- Friends become so together. -/
theorem encodes_friend_symm {a b : String} (he : .friend a b name false ∈ p.encodes pe) :
    ∃ name', .friend b a name' false ∈ p.encodes pe := by
  cases mem_encodes_iff.1 he with
  | asked hu hself => exact ⟨_, mem_encodes_iff.2 (.agreed hu hself)⟩
  | agreed hu hself => exact ⟨_, mem_encodes_iff.2 (.asked hu hself)⟩

end Process

/-! ## The documents of `Friends` -/

variable {encoded : List Encoded} {ws : List AppWrite} {uid : String}

/-- What the writes into the account's `Friends` say has been encoded. -/
def BefriendsOf (encoded : List Encoded) (ws : List AppWrite) (uid : String) : Prop :=
  ∀ x ∈ ws, ∀ id, DocWrite.path x = .friends uid id →
    ∃ name isGroupChat, .friend uid id name isGroupChat ∈ encoded ∧
      x = friendWrite uid id name isGroupChat

theorem BefriendsOf.friend_of_docs (h : BefriendsOf encoded ws uid) {id : String} {doc : Doc}
    (hdoc : docs ws (.friends uid id) = some doc) :
    ∃ name isGroupChat, .friend uid id name isGroupChat ∈ encoded ∧
      doc = friendData name isGroupChat := by
  refine DocWrite.replay_keeps_some (I := fun doc => ∃ name isGroupChat,
    .friend uid id name isGroupChat ∈ encoded ∧ doc = friendData name isGroupChat) rfl
    (fun x hx hp d _ doc hdoc => ?_) hdoc
  obtain ⟨name, isGroupChat, he, rfl⟩ := h x hx id hp
  exact ⟨name, isGroupChat, he, (Option.some.inj hdoc).symm⟩

/-- A document that is written exists. -/
theorem BefriendsOf.isSome_docs (h : BefriendsOf encoded ws uid) {id : String} {x : AppWrite}
    (hx : x ∈ ws) (hp : DocWrite.path x = .friends uid id) :
    (docs ws (.friends uid id)).isSome := by
  refine DocWrite.replay_of_forall_act (I := fun d : Option Doc => d.isSome)
    (fun x hx hp d => ?_) hx hp
  obtain ⟨name, isGroupChat, -, rfl⟩ := h x hx id hp
  rfl

theorem username_friendData (name : String) (isGroupChat : Bool) :
    (friendData (some name) isGroupChat)["username"]? = some (.string name) :=
  Doc.getElem?_ofList_pair (by decide) (by simp)

theorem groupFlag_friendData (name : Option String) (isGroupChat : Bool) :
    (friendData name isGroupChat)["groupFlag"]? = some (.bool isGroupChat) :=
  Doc.getElem?_ofList_pair (by decide) (by simp)

/-- Where everything that has been encoded for the account is among the writes, its documents are
those of its friends and groups. -/
theorem BefriendsOf.exists_docs_iff (h : BefriendsOf encoded ws uid)
    (hall : ∀ id name isGroupChat, .friend uid id name isGroupChat ∈ encoded →
      friendWrite uid id name isGroupChat ∈ ws) (id : String) :
    (∃ doc, docs ws (.friends uid id) = some doc) ↔
      ∃ name isGroupChat, .friend uid id name isGroupChat ∈ encoded := by
  constructor
  · rintro ⟨doc, hdoc⟩
    obtain ⟨name, isGroupChat, he, -⟩ := h.friend_of_docs hdoc
    exact ⟨name, isGroupChat, he⟩
  · rintro ⟨name, isGroupChat, he⟩
    exact Option.isSome_iff_exists.1 (h.isSome_docs (hall id name isGroupChat he) rfl)

/-- The ids of those that are no groups, where no friend has the id of a group. -/
theorem BefriendsOf.mem_friendsIn_iff (h : BefriendsOf encoded ws uid)
    (hall : ∀ id name isGroupChat, .friend uid id name isGroupChat ∈ encoded →
      friendWrite uid id name isGroupChat ∈ ws)
    (hids : ∀ id name name', .friend uid id name true ∈ encoded →
      .friend uid id name' false ∉ encoded) (id : String) :
    id ∈ Process.friendsIn (collection (.friends uid) ws) ↔
      ∃ name, .friend uid id name false ∈ encoded := by
  constructor
  · intro hid
    obtain ⟨⟨id, doc⟩, hd, rfl⟩ := List.mem_map.1 hid
    obtain ⟨hd, hflag⟩ := List.mem_filter.1 hd
    have hflag : doc["groupFlag"]? = some (Value.bool false) := of_decide_eq_true hflag
    obtain ⟨name, isGroupChat, he, rfl⟩ := h.friend_of_docs (mem_collection hd)
    rw [groupFlag_friendData] at hflag
    obtain rfl := Value.bool.inj (Option.some.inj hflag)
    exact ⟨name, he⟩
  · rintro ⟨name, he⟩
    obtain ⟨doc, hdoc⟩ := (h.exists_docs_iff hall id).2 ⟨name, false, he⟩
    obtain ⟨name', isGroupChat, he', rfl⟩ := h.friend_of_docs hdoc
    cases isGroupChat with
    | true => exact absurd he (hids id name' name he')
    | false =>
      refine List.mem_map.2 ⟨_, List.mem_filter.2 ⟨(mem_collection_iff fun _ => rfl).2 hdoc, ?_⟩,
        rfl⟩
      exact decide_eq_true (groupFlag_friendData name' false)

/-- Documents with names are read. -/
theorem BefriendsOf.exists_friendsListener (h : BefriendsOf encoded ws uid)
    (hnamed : ∀ id name isGroupChat, .friend uid id name isGroupChat ∈ encoded → name.isSome)
    (g : Globals) : ∃ g' lists,
      RecentViewController.friendsListener g (collection (.friends uid) ws) = some (g', lists) := by
  obtain ⟨entries, hentries⟩ := exists_forall₂ (R := fun (d : String × Doc) (e : String × Bool) =>
    d.2["username"]? = some (Value.string e.1) ∧ d.2["groupFlag"]? = some (Value.bool e.2))
    (l := collection (.friends uid) ws) fun d hd => by
      obtain ⟨name, isGroupChat, he, hdoc⟩ := h.friend_of_docs (mem_collection hd)
      obtain ⟨name, rfl⟩ := Option.isSome_iff_exists.1 (hnamed _ _ _ he)
      rw [hdoc]
      exact ⟨(name, isGroupChat), username_friendData name isGroupChat,
        groupFlag_friendData (some name) isGroupChat⟩
  obtain ⟨g', lists, hl, -⟩ := RecentViewController.friendsListener_of_forall₂ hentries g
  exact ⟨g', lists, hl⟩

namespace App

variable {init : List AppWrite} {w w' : App}

/-- `Friends` receives what has been encoded, and all of it; and friends have become so together. -/
structure Befriends (w : App) : Prop where
  written : ∀ c, ∀ x ∈ w.net.issued c, ∀ uid id, DocWrite.path x = .friends uid id →
    ∃ name isGroupChat, .friend uid id name isGroupChat ∈ w.encoded ∧
      x = friendWrite uid id name isGroupChat
  issued : ∀ uid id name isGroupChat, .friend uid id name isGroupChat ∈ w.encoded →
    ∃ c, friendWrite uid id name isGroupChat ∈ w.net.issued c
  symm : ∀ a b name, .friend a b name false ∈ w.encoded →
    ∃ name', .friend b a name' false ∈ w.encoded

theorem befriends_start : Befriends start where
  written _ _ hx := (List.not_mem_nil hx).elim
  issued _ _ _ _ he := (List.not_mem_nil he).elim
  symm _ _ _ he := (List.not_mem_nil he).elim

theorem Befriends.step (hB : w.Befriends) {e : Event} (h : w.step init e = some w') :
    w'.Befriends := by
  rcases step_cases h with ⟨c, net, -, hnet, rfl⟩ | ⟨p, pe, q, ws, hpe, heff, rfl⟩
  · refine ⟨fun c x hx => hB.written c x ?_, fun uid id name isGroupChat he => ?_, hB.symm⟩
    · rwa [WriteQueue.issued_land hnet] at hx
    · obtain ⟨c, hc⟩ := hB.issued uid id name isGroupChat he
      exact ⟨c, by rwa [WriteQueue.issued_land hnet]⟩
  · refine ⟨fun c x hx uid id hp => ?_, fun uid id name isGroupChat he => ?_, fun a b name he => ?_⟩
    · rcases WriteQueue.mem_issued_issue.1 hx with hx | ⟨-, hx⟩
      · obtain ⟨name, isGroupChat, he, rfl⟩ := hB.written c x hx uid id hp
        exact ⟨name, isGroupChat, List.mem_append_left _ he, rfl⟩
      · obtain ⟨name, isGroupChat, he, rfl⟩ := (hp ▸ heff.wrote hx).friend
        exact ⟨name, isGroupChat, List.mem_append_right _ he, rfl⟩
    · rcases List.mem_append.1 he with he | he
      · obtain ⟨c, hc⟩ := hB.issued uid id name isGroupChat he
        exact ⟨c, WriteQueue.mem_issued_issue.2 (.inl hc)⟩
      · exact ⟨_, WriteQueue.mem_issued_issue.2 (.inr ⟨rfl, heff.write_friend he⟩)⟩
    · rcases List.mem_append.1 he with he | he
      · exact (hB.symm a b name he).imp fun _ h => List.mem_append_left _ h
      · exact (Process.encodes_friend_symm he).imp fun _ h => List.mem_append_right _ h

theorem befriends_of_run {es : List Event} (h : EventRun.run (step init) start es = some w) :
    w.Befriends :=
  EventRun.run_invariant (step init) (fun _ _ _ hB hs => hB.step hs) befriends_start h

/-- The account has the friend or group `id`, as far as has been encoded. -/
def Befriended (w : App) (uid id : String) : Prop :=
  ∃ name isGroupChat, .friend uid id name isGroupChat ∈ w.encoded

/-- From a store without friends: two users are friends together; at rest every friend and group has
landed in `Friends`; and once those of an account have, and have names, a snapshot that sees all
that has landed fills the lists with exactly these, in the order of their ids, the second of them
with those that are no groups. -/
theorem lists_exact (hinit : ∀ x ∈ init, ∀ uid id, DocWrite.path x ≠ .friends uid id)
    {es : List Event} (h : EventRun.run (step init) start es = some w) :
    (∀ a b name, .friend a b name false ∈ w.encoded →
      ∃ name', .friend b a name' false ∈ w.encoded) ∧
    (w.net.Rest → ∀ uid id name isGroupChat, .friend uid id name isGroupChat ∈ w.encoded →
      friendWrite uid id name isGroupChat ∈ w.net.landed) ∧
    ∀ p uid n m, uid ∈ (w.process p).device.bufferListeners →
      (∀ id name isGroupChat, .friend uid id name isGroupChat ∈ w.encoded →
        name.isSome ∧ friendWrite uid id name isGroupChat ∈ w.net.landed) →
      w.net.log.length ≤ n →
      ∃ w', w.step init (.deliver p (.friends uid) n m) = some w' ∧
        (w'.process p).device.globals.listOfId.Pairwise (· < ·) ∧
        (∀ id, id ∈ (w'.process p).device.globals.listOfId ↔ w.Befriended uid id) ∧
        ((∀ id name name', .friend uid id name true ∈ w.encoded →
          .friend uid id name' false ∉ w.encoded) →
          ∀ id, id ∈ (w'.process p).lists.listOfIdWithoutGroup ↔
            ∃ name, .friend uid id name false ∈ w.encoded) := by
  have hB := befriends_of_run h
  refine ⟨hB.symm, fun hrest uid id name isGroupChat he => ?_, fun p uid n m hp hlanded hn => ?_⟩
  · obtain ⟨c, hc⟩ := hB.issued uid id name isGroupChat he
    exact WriteQueue.mem_landed_of_rest hrest hc
  · generalize hws : w.seen init (w.account p) n m = ws
    have hof : BefriendsOf w.encoded ws uid := by
      intro x hx id hpath
      rcases mem_seen (hws ▸ hx) with hx | ⟨c, hx⟩
      · exact absurd hpath (hinit x hx uid id)
      · exact hB.written c x hx uid id hpath
    have hall : ∀ id name isGroupChat, .friend uid id name isGroupChat ∈ w.encoded →
        friendWrite uid id name isGroupChat ∈ ws :=
      fun id name isGroupChat he => hws ▸ mem_seen_of_landed (hlanded id name isGroupChat he).2 hn
        (w.account p) m
    obtain ⟨g, lists, hl⟩ := hof.exists_friendsListener
      (fun id name isGroupChat he => (hlanded id name isGroupChat he).1)
      (w.process p).device.globals
    have hglobals := Process.friendsListener_globals hl
    obtain ⟨-, -, -, hids⟩ := Process.friendsListener_lists hl
    refine ⟨_, by simp only [step, Query.callback, hws, act, Process.step, if_pos hp, hl,
      Option.bind_eq_bind, Option.bind_some]; rfl, ?_⟩
    simp only [Function.update_self, hglobals, hids]
    refine ⟨collection_sorted (.friends uid) ws, fun id => ?_, fun hgroups id =>
      hof.mem_friendsIn_iff hall hgroups id⟩
    rw [Befriended, ← hof.exists_docs_iff hall id]
    constructor
    · intro hid
      obtain ⟨⟨id, doc⟩, hd, rfl⟩ := List.mem_map.1 hid
      exact ⟨doc, mem_collection hd⟩
    · rintro ⟨doc, hdoc⟩
      exact List.mem_map.2 ⟨(id, doc), (mem_collection_iff fun _ => rfl).2 hdoc, rfl⟩

/-- `b` has asked `a`. -/
def requested : List AppWrite :=
  [.write (.setData (.friendRequestFrom "a" "b")
    (.ofList [("Requesting", Value.string "true"), ("username", .string "b")]) false)]

/-- `a` agrees, and all that is written lands. -/
def accepting : List Event :=
  [.on "p" (.chat (.signIn ⟨"a", some "a@x", some "a"⟩)), .deliver "p" (.requests "a") 0 0,
    .on "p" (.cellForRowAt 0), .on "p" (.didSelectRowAt 0), .on "p" .requestDidLoad,
    .on "p" (.agreeClicked 0)] ++ List.replicate 4 (.land ("p", some "a"))

theorem lists_exact_accepting : ∃ w w', EventRun.run (step requested) start accepting = some w ∧
    w.step requested (.deliver "p" (.friends "a") 4 0) = some w' ∧
    ∀ id, id ∈ (w'.process "p").lists.listOfIdWithoutGroup ↔ id = "b" := by
  obtain ⟨w, hw⟩ := Option.isSome_iff_exists.1
    (by decide +kernel : (EventRun.run (step requested) start accepting).isSome)
  have hstate : ∀ w ∈ EventRun.run (step requested) start accepting,
      w.encoded = [.friend "a" "b" (some "b") false, .friend "b" "a" (some "a") false] ∧
      "a" ∈ (w.process "p").device.bufferListeners ∧ w.net.log.length ≤ 4 ∧
      friendWrite "a" "b" (some "b") false ∈ w.net.landed := by decide +kernel
  obtain ⟨hencoded, hlistens, hlog, hlanded⟩ := hstate w hw
  obtain ⟨w', hw', -, -, hids⟩ := (lists_exact (by simp [requested]) hw).2.2 "p" "a" 4 0 hlistens
    (fun id name isGroupChat he => by
      obtain ⟨rfl, rfl, rfl⟩ : id = "b" ∧ name = some "b" ∧ isGroupChat = false := by
        simpa [hencoded] using he
      exact ⟨rfl, hlanded⟩) hlog
  refine ⟨w, w', hw, hw', fun id => (hids (by simp [hencoded]) id).trans ?_⟩
  simp [hencoded]

end App

end MessageApp
