import MessageApp.Messaging
import MessageApp.Rows
import MessageApp.Proofs.Listener
import MessageApp.Proofs.Cache
import MessageApp.Proofs.Incremental
import MessageApp.Proofs.Unread
import MessageApp.Proofs.Accounts
import MessageApp.Proofs.Alignment
import MessageApp.Proofs.TwoRuns
import MessageApp.Proofs.Clients
import MessageApp.Proofs.Copies
import MessageApp.Proofs.Notices
import MessageApp.Proofs.Buffers
import MessageApp.DiscoverSendViewController
import MessageApp.Proofs.Records
import MessageApp.Proofs.Posts
import MessageApp.FriendRequest
import MessageApp.Proofs.Coexist
import MessageApp.Proofs.Friends
import MessageApp.Proofs.Membership
import MessageApp.Proofs.Rejections
import MessageApp.RecentViewController
import MessageApp.Proofs.Badges
import MessageApp.Process
import MessageApp.Proofs.ProcessSteps
import MessageApp.Proofs.Audience
import MessageApp.DiscoverViewController
import MessageApp.App
import MessageApp.Proofs.AppSteps
import MessageApp.Proofs.Documents
import MessageApp.Proofs.Consent
import MessageApp.Proofs.Readers
import MessageApp.Proofs.Decoding
import MessageApp.Proofs.Reading
import MessageApp.Proofs.Sides
import MessageApp.TimeInterval
import MessageApp.Proofs.Times
import MessageApp.StartGroupChatViewController
import MessageApp.Proofs.Selection
import MessageApp.Tables
import MessageApp.Proofs.Tables
import MessageApp.Scrolling
import MessageApp.Proofs.Scrolls
import MessageApp.Voices
import MessageApp.Proofs.VoiceSteps
import MessageApp.Proofs.Sends
import MessageApp.Proofs.Recordings
import MessageApp.Lib.Feed
import MessageApp.Proofs.Shown
import MessageApp.Proofs.Received
import MessageApp.SearchResultViewController
import MessageApp.Searches
import MessageApp.Proofs.Wrote
import MessageApp.Proofs.FriendLists
import MessageApp.Pictures
import MessageApp.Proofs.Pictures
import MessageApp.Contacts
import MessageApp.Proofs.Told
import MessageApp.Proofs.Contacts
import MessageApp.Proofs.GroupMembers
import MessageApp.Proofs.Carried
import MessageApp.Discovers
import MessageApp.Proofs.Discovers
import MessageApp.Lib.Rounds
import MessageApp.Proofs.Searches
