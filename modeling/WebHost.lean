import WebHost.Main
import WebHost.Proofs.Accounts.LoginHistory
import WebHost.Proofs.Http.Delivery
import WebHost.Proofs.Http.FormSpelling
import WebHost.Proofs.Http.Intake
import WebHost.Proofs.Http.ResponseHeaders
import WebHost.Proofs.Http.ResponseMessage
import WebHost.Proofs.Server.Lifecycle
import WebHost.Proofs.Server.Slots
import WebHost.Proofs.Server.StartStop
import WebHost.Proofs.Site.Effects
import WebHost.Proofs.Site.Framing
import WebHost.Proofs.Site.Logout
import WebHost.Proofs.Site.PostedText
import WebHost.Proofs.Site.SignUp
import WebHost.Proofs.Site.StaticPath
import WebHost.Proofs.Template.Layout
import WebHost.Proofs.Accounts.Loading
import WebHost.Proofs.Accounts.Refusals
import WebHost.Proofs.Site.Refusals
import WebHost.Proofs.Site.Guards
import WebHost.Proofs.Site.StaticAnswer
import WebHost.Proofs.Site.SwitchedOff
import WebHost.Proofs.Accounts.MailAddress
import WebHost.Proofs.Http.HeaderLimit
import WebHost.Proofs.Server.Connection
import WebHost.Proofs.Site.LoginAnswer
import WebHost.Proofs.Http.DeclaredLength
import WebHost.Proofs.Site.ContentType
import WebHost.Proofs.Http.BufferReader
import WebHost.Proofs.Settings.Reading
