import MessageApp.Process
import MessageApp.Proofs.DeviceSteps

/-!
# What one event does to a process

A step has one of the effects of `Process.Effect` (`Process.effect_of_step`), one for each kind of
event, so what a property needs of all steps is a case analysis over them.
-/

namespace MessageApp

namespace Process

open RecentViewController

/-- What an event leads to, and what it writes. -/
inductive Effect (p : Process) : Event → Process → List AppWrite → Prop
  | chat {e : Device.Event} {d : Device} {ws : List Write} : signsInWithEmail e = true →
    p.device.step e = some (d, ws) → Effect p (.chat e) { p with device := d } (ws.map .write)
  | signupClick (uid email : String) : Effect p (.signupClick uid email)
      { p.withUser (some { uid := uid, email := some email }) with
        changing := p.changing ++ [(uid, email)] }
      (MessageApp.signupClick { uid := uid, email := some email })
  | changesCommitted {j : ℕ} {uid name : String} : p.changing[j]? = some (uid, name) →
    Effect p (.changesCommitted j) { p.withUser (p.device.currentUser.map fun user =>
        if user.uid = uid then { user with displayName := some name } else user) with
      changing := p.changing.eraseIdx j } []
  | afterSignUp {myUser : User} : p.device.currentUser = some myUser →
    Effect p .afterSignUp { p with device := { p.device with
      bufferListeners := p.device.bufferListeners ++ [myUser.uid] } } []
  | friendsSnapshot {uid : String} {documents : List (String × Doc)} {g : Globals}
    {lists : FriendLists} : uid ∈ p.device.bufferListeners →
    friendsListener p.device.globals documents = some (g, lists) →
    Effect p (.friendsSnapshot uid documents)
      { p with device := { p.device with globals := g }, lists := lists } []
  | requestSnapshot {uid : String} {documents : List (String × Doc)}
    {information : FriendRequestInformation} : uid ∈ p.device.bufferListeners →
    requestListener documents = some information →
    Effect p (.requestSnapshot uid documents)
      { p with friendRequestInformation := information } []
  | chatBufferSnapshot {uid : String} {documents : List (String × Doc)} :
    uid ∈ p.device.bufferListeners → Effect p (.chatBufferSnapshot uid documents)
      { p with device := { p.device with
        globals := chatBufferListener p.device.globals documents } } []
  | cellForRowAt {row : ℕ} {name id : String} : p.friendRequestInformation.name[row]? = some name →
    p.friendRequestInformation.id[row]? = some id →
    Effect p (.cellForRowAt row) { p with cells := p.cells ++ [⟨name, id⟩] } []
  | didSelectRowAt {cell : ℕ} {tablecell : Requester} : p.cells[cell]? = some tablecell →
    Effect p (.didSelectRowAt cell)
      { p with friendSelectedInformation := tablecell, segues := p.segues + 1 } []
  | requestDidLoad : 0 < p.segues → Effect p .requestDidLoad
      { p with
        requestScreens := p.requestScreens ++ [p.friendSelectedInformation]
        segues := p.segues - 1 } []
  | agreeClicked {i : ℕ} {self : Requester} {ws : List Write} : p.requestScreens[i]? = some self →
    MessageApp.agreeClicked p.device.currentUser self.id self.name = some ws →
    Effect p (.agreeClicked i) p (ws.map .write)
  | disagreeClicked {i : ℕ} {self : Requester} {ws : List Write} :
    p.requestScreens[i]? = some self →
    MessageApp.disagreeClicked p.device.currentUser self.id = some ws →
    Effect p (.disagreeClicked i) p (ws.map .write)
  | sendFriendRequest {searchWithId : String} {ws : List Write} :
    MessageApp.sendFriendRequest p.device.currentUser searchWithId = some ws →
    Effect p (.sendFriendRequest searchWithId) p (ws.map .write)
  | startGroupChatNow {groupChatFriends : List String} {documentID : String} {myUser : User}
    {ws : List Write} : p.device.currentUser = some myUser →
    MessageApp.startGroupChatNow (some myUser) groupChatFriends documentID = some ws →
    Effect p (.startGroupChatNow groupChatFriends documentID)
      { p with adding := p.adding ++ [(myUser, documentID)] } (ws.map .write)
  | groupAdded {j : ℕ} {myUser : User} {groupChatFriends : List String} {documentID : String}
    {ws : List Write} : p.adding[j]? = some (myUser, documentID) →
    MessageApp.groupAdded myUser groupChatFriends documentID = some ws →
    Effect p (.groupAdded j groupChatFriends) { p with adding := p.adding.eraseIdx j }
      (ws.map .write)
  | sendStoryClicked {text : Option String} {t : String} {ws : List Write} :
    MessageApp.sendStoryClicked p.device.currentUser text p.device.globals.listOfId t = some ws →
    Effect p (.sendStoryClicked text t) p (ws.map .write)

theorem effect_of_step {p p' : Process} {e : Event} {ws : List AppWrite}
    (h : p.step e = some (p', ws)) : Effect p e p' ws := by
  cases e with
  | chat e =>
    simp only [step] at h
    split_ifs at h with he
    obtain ⟨⟨d, ws⟩, hd, h⟩ := Option.bind_eq_some_iff.1 h
    obtain ⟨rfl, rfl⟩ := Prod.mk.inj (Option.some.inj h)
    exact .chat he hd
  | signupClick uid email =>
    obtain ⟨rfl, rfl⟩ := Prod.mk.inj (Option.some.inj h)
    exact .signupClick uid email
  | changesCommitted j =>
    obtain ⟨⟨uid, name⟩, hj, h⟩ := Option.bind_eq_some_iff.1 h
    obtain ⟨rfl, rfl⟩ := Prod.mk.inj (Option.some.inj h)
    exact .changesCommitted hj
  | afterSignUp =>
    obtain ⟨myUser, hu, h⟩ := Option.bind_eq_some_iff.1 h
    obtain ⟨rfl, rfl⟩ := Prod.mk.inj (Option.some.inj h)
    exact .afterSignUp hu
  | friendsSnapshot uid documents =>
    simp only [step] at h
    split_ifs at h with hu
    obtain ⟨⟨g, lists⟩, hg, h⟩ := Option.bind_eq_some_iff.1 h
    obtain ⟨rfl, rfl⟩ := Prod.mk.inj (Option.some.inj h)
    exact .friendsSnapshot hu hg
  | requestSnapshot uid documents =>
    simp only [step] at h
    split_ifs at h with hu
    obtain ⟨information, hi, h⟩ := Option.bind_eq_some_iff.1 h
    obtain ⟨rfl, rfl⟩ := Prod.mk.inj (Option.some.inj h)
    exact .requestSnapshot hu hi
  | chatBufferSnapshot uid documents =>
    simp only [step] at h
    split_ifs at h with hu
    obtain ⟨rfl, rfl⟩ := Prod.mk.inj (Option.some.inj h)
    exact .chatBufferSnapshot hu
  | cellForRowAt row =>
    obtain ⟨name, hname, h⟩ := Option.bind_eq_some_iff.1 h
    obtain ⟨id, hid, h⟩ := Option.bind_eq_some_iff.1 h
    obtain ⟨rfl, rfl⟩ := Prod.mk.inj (Option.some.inj h)
    exact .cellForRowAt hname hid
  | didSelectRowAt cell =>
    obtain ⟨tablecell, hc, h⟩ := Option.bind_eq_some_iff.1 h
    obtain ⟨rfl, rfl⟩ := Prod.mk.inj (Option.some.inj h)
    exact .didSelectRowAt hc
  | requestDidLoad =>
    simp only [step] at h
    split_ifs at h with hs
    obtain ⟨rfl, rfl⟩ := Prod.mk.inj (Option.some.inj h)
    exact .requestDidLoad hs
  | agreeClicked i =>
    obtain ⟨self, hi, h⟩ := Option.bind_eq_some_iff.1 h
    obtain ⟨ws, hws, h⟩ := Option.bind_eq_some_iff.1 h
    obtain ⟨rfl, rfl⟩ := Prod.mk.inj (Option.some.inj h)
    exact .agreeClicked hi hws
  | disagreeClicked i =>
    obtain ⟨self, hi, h⟩ := Option.bind_eq_some_iff.1 h
    obtain ⟨ws, hws, h⟩ := Option.bind_eq_some_iff.1 h
    obtain ⟨rfl, rfl⟩ := Prod.mk.inj (Option.some.inj h)
    exact .disagreeClicked hi hws
  | sendFriendRequest searchWithId =>
    obtain ⟨ws, hws, h⟩ := Option.bind_eq_some_iff.1 h
    obtain ⟨rfl, rfl⟩ := Prod.mk.inj (Option.some.inj h)
    exact .sendFriendRequest hws
  | startGroupChatNow groupChatFriends documentID =>
    obtain ⟨myUser, hu, h⟩ := Option.bind_eq_some_iff.1 h
    obtain ⟨ws, hws, h⟩ := Option.bind_eq_some_iff.1 h
    obtain ⟨rfl, rfl⟩ := Prod.mk.inj (Option.some.inj h)
    exact .startGroupChatNow hu hws
  | groupAdded j groupChatFriends =>
    obtain ⟨⟨myUser, documentID⟩, hj, h⟩ := Option.bind_eq_some_iff.1 h
    obtain ⟨ws, hws, h⟩ := Option.bind_eq_some_iff.1 h
    obtain ⟨rfl, rfl⟩ := Prod.mk.inj (Option.some.inj h)
    exact .groupAdded hj hws
  | sendStoryClicked text t =>
    obtain ⟨ws, hws, h⟩ := Option.bind_eq_some_iff.1 h
    obtain ⟨rfl, rfl⟩ := Prod.mk.inj (Option.some.inj h)
    exact .sendStoryClicked hws

theorem exists_step_of_next {p p' : Process} {e : Event} (h : p.next e = some p') :
    ∃ ws, Effect p e p' ws := by
  obtain ⟨⟨_, ws⟩, hs, rfl⟩ := Option.map_eq_some_iff.1 h
  exact ⟨ws, effect_of_step hs⟩

end Process

end MessageApp
