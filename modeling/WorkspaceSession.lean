import WorkspaceSession.Main
import WorkspaceSession.CommandLine.Run
import WorkspaceSession.FileSystem.Edit
import WorkspaceSession.Proofs.Findings
import WorkspaceSession.Proofs.BufferMap
import WorkspaceSession.Proofs.Events
import WorkspaceSession.Proofs.Origins
import WorkspaceSession.Proofs.FileUrls
import WorkspaceSession.Proofs.LineTable
import WorkspaceSession.Proofs.ProtocolEdits
import WorkspaceSession.Proofs.Rebuild
import WorkspaceSession.Proofs.AtRest
import WorkspaceSession.Proofs.FullBuild
import WorkspaceSession.Proofs.Lifetimes
import WorkspaceSession.Proofs.OpenDocuments
import WorkspaceSession.Proofs.SharedLocations
import WorkspaceSession.Proofs.OpenFiles
import WorkspaceSession.Proofs.Enumerations
import WorkspaceSession.Proofs.Accounts
import WorkspaceSession.Proofs.BufferHistories
import WorkspaceSession.Proofs.EditPoints
import WorkspaceSession.Proofs.RootSpellings
import WorkspaceSession.Proofs.LexicalResolution
import WorkspaceSession.Proofs.Containment
import WorkspaceSession.Proofs.HostTexts
import WorkspaceSession.Proofs.PathSegments
import WorkspaceSession.Proofs.VirtualDocuments
import WorkspaceSession.Proofs.Archives
import WorkspaceSession.Proofs.Respellings
import WorkspaceSession.Proofs.SameSettings
import WorkspaceSession.Proofs.Payloads
import WorkspaceSession.Proofs.Notifications
import WorkspaceSession.Proofs.ReadBack
import WorkspaceSession.Proofs.Arguments
import WorkspaceSession.Proofs.NamedDocuments
import WorkspaceSession.Proofs.Runs
import WorkspaceSession.Proofs.TreatedAsOpen
import WorkspaceSession.Proofs.LibraryLookups
import WorkspaceSession.Proofs.LineEnds
import WorkspaceSession.Proofs.JoinedPaths
import WorkspaceSession.Proofs.SessionHistories
