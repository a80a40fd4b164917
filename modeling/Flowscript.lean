import Flowscript.Launch.Load
import Flowscript.Main
import Flowscript.Metadata.Panel
import Flowscript.Session.Lookup
import Flowscript.Text.Base64
import Flowscript.Proofs.Workflow.Dataflow
import Flowscript.Proofs.Real.Cache
import Flowscript.Proofs.Real.Recording
import Flowscript.Proofs.Workflow.Repetition
import Flowscript.Proofs.Renaming
import Flowscript.Proofs.Workflow.ReadBack
import Flowscript.Proofs.Session.Blocks
import Flowscript.Proofs.Workflow.Reach
import Flowscript.Proofs.Workflow.Switches
import Flowscript.Proofs.Workflow.Widgets
import Flowscript.Proofs.Workflow.Literals
import Flowscript.Proofs.Workflow.Exposure
import Flowscript.Proofs.Session.Foreign
import Flowscript.Proofs.Registry.Parameters
import Flowscript.Proofs.Session.Sent
import Flowscript.Proofs.Registry.Choices
import Flowscript.Proofs.Registry.Loading
import Flowscript.Proofs.Session.EmptyQueue
import Flowscript.Proofs.Metadata.Saved
import Flowscript.Proofs.Keywords
import Flowscript.Proofs.Session.Shadows
import Flowscript.Proofs.ModulePath
