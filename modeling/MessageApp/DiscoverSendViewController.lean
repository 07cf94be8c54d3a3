import MessageApp.Information

/-!
# `DiscoverSendViewController`

A story is merged into the blog of its author and into the friend blogs of its author and of every
friend in `listOfId`.
-/

namespace MessageApp

/-- `none` is a text field without text, which sends nothing; `myUser!` traps with no user signed
in. A missing display name is stored as null. -/
def sendStoryClicked (currentUser : Option User) (text : Option String) (listOfId : List String)
    (t : String) : Option (List Write) :=
  match text with
  | none => some []
  | some text => currentUser.map fun myUser =>
    let data : Doc := .insert ∅ t (.array [some myUser.uid, some text, myUser.displayName])
    .setData (.myBlog myUser.uid) data true :: .setData (.friendBlog myUser.uid) data true ::
      listOfId.map fun id => .setData (.friendBlog id) data true

end MessageApp
