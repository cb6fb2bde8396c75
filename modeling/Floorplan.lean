import Floorplan.Main
import Floorplan.Proofs.Arcs
import Floorplan.Proofs.Bytes
import Floorplan.Proofs.Characters
import Floorplan.Proofs.Command.Files
import Floorplan.Proofs.Command.Input
import Floorplan.Proofs.Command.Run
import Floorplan.Proofs.Corners
import Floorplan.Proofs.Decimal
import Floorplan.Proofs.Drawing
import Floorplan.Proofs.Edges
import Floorplan.Proofs.Gathering
import Floorplan.Proofs.Heading
import Floorplan.Proofs.Heights
import Floorplan.Proofs.Integers
import Floorplan.Proofs.Level.Characters
import Floorplan.Proofs.Level.Document
import Floorplan.Proofs.Level.Element
import Floorplan.Proofs.Level.Lines
import Floorplan.Proofs.Literals
import Floorplan.Proofs.MacRoman
import Floorplan.Proofs.Magnitude
import Floorplan.Proofs.Numbering
import Floorplan.Proofs.Overflow
import Floorplan.Proofs.Picture.Faults
import Floorplan.Proofs.Picture.Joining
import Floorplan.Proofs.Picture.Preamble
import Floorplan.Proofs.Picture.Progress
import Floorplan.Proofs.Picture.Record
import Floorplan.Proofs.Picture.Rewriting
import Floorplan.Proofs.Picture.Rows
import Floorplan.Proofs.Picture.Shortage
import Floorplan.Proofs.Picture.Spelling
import Floorplan.Proofs.Picture.Stream
import Floorplan.Proofs.Picture.Texts
import Floorplan.Proofs.Placement
import Floorplan.Proofs.Ramps
import Floorplan.Proofs.Ratio
import Floorplan.Proofs.Reading
import Floorplan.Proofs.Recoloring
import Floorplan.Proofs.Resource.Container
import Floorplan.Proofs.Resource.Fork
import Floorplan.Proofs.Resource.Malformed
import Floorplan.Proofs.Resource.Meaning
import Floorplan.Proofs.Resource.Sections
import Floorplan.Proofs.Rounding
import Floorplan.Proofs.Script.Fields
import Floorplan.Proofs.Script.Frame
import Floorplan.Proofs.Script.Growth
import Floorplan.Proofs.Script.Lines
import Floorplan.Proofs.Script.Quoting
import Floorplan.Proofs.Script.Resting
import Floorplan.Proofs.Script.Run
import Floorplan.Proofs.Script.Statements
import Floorplan.Proofs.Script.Unique
import Floorplan.Proofs.Settings
import Floorplan.Proofs.Translation
import Floorplan.Proofs.Walls
import Floorplan.Proofs.Command.Run
