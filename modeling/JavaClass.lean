import JavaClass.AccessFlags
import JavaClass.Attribute.Reader
import JavaClass.ClassFile.Reader
import JavaClass.ClassPath
import JavaClass.Code.Instruction
import JavaClass.Command.Run
import JavaClass.Cursor
import JavaClass.Descriptor
import JavaClass.Listing.ClassFile
import JavaClass.Main
import JavaClass.Number.Literal
import JavaClass.Pool.Describe
import JavaClass.Pool.Reader
import JavaClass.Proofs.Annotation
import JavaClass.Proofs.Attribute
import JavaClass.Proofs.ClassFile
import JavaClass.Proofs.Code
import JavaClass.Proofs.Describe
import JavaClass.Proofs.Follows
import JavaClass.Proofs.Format
import JavaClass.Proofs.Inflate
import JavaClass.Proofs.Listing.Attribute
import JavaClass.Proofs.Listing.ClassFile
import JavaClass.Proofs.Number
import JavaClass.Proofs.Pool
import JavaClass.Proofs.PrefixFree
import JavaClass.Proofs.References
import JavaClass.Proofs.Windows
import JavaClass.Storage.Archive
import JavaClass.Storage.FileTree
import JavaClass.Text.Blank
import JavaClass.Text.DecimalDigit
import JavaClass.Text.Escape
import JavaClass.Text.ModifiedUtf8
import JavaClass.Proofs.Descriptor
import JavaClass.Proofs.Displacement
import JavaClass.Proofs.Placement
import JavaClass.Proofs.Payload
import JavaClass.Proofs.Slots
import JavaClass.Proofs.ClassPath
import JavaClass.Proofs.Command
import JavaClass.Proofs.Breaks
import JavaClass.Proofs.Juxtaposition
import JavaClass.Proofs.ModifiedUtf8
import JavaClass.Proofs.Escape
import JavaClass.Proofs.Rounding
import JavaClass.Proofs.Wording
import JavaClass.Proofs.Numeral
import JavaClass.Proofs.Shortest
import JavaClass.Proofs.SingleReading
import JavaClass.Proofs.SingleLiteral
import JavaClass.Proofs.Instruction
import JavaClass.Proofs.Listing.Code
import JavaClass.Proofs.Listing.Options
