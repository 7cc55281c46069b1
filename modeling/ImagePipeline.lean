import ImagePipeline.Main
import ImagePipeline.Node.Studio
import ImagePipeline.Proofs.Binary64.Decimal
import ImagePipeline.Proofs.Numeral.Integer
import ImagePipeline.Proofs.Numeral.Real
import ImagePipeline.Proofs.Definition.Declaration
import ImagePipeline.Proofs.Definition.Grammar
import ImagePipeline.Proofs.Definition.Strictness
import ImagePipeline.Proofs.Definition.Document
import ImagePipeline.Proofs.Text.Utf8
import ImagePipeline.Proofs.Pipeline.RoundTrip
import ImagePipeline.Proofs.File.Path
import ImagePipeline.Proofs.File.Tree
import ImagePipeline.Proofs.File.Shape
import ImagePipeline.Proofs.Run.Step
import ImagePipeline.Proofs.Run.Composition
import ImagePipeline.Proofs.Run.Events
import ImagePipeline.Proofs.Image.NoiseBand
import ImagePipeline.Proofs.Image.Noise
import ImagePipeline.Proofs.Image.Painting
import ImagePipeline.Proofs.Image.Crop
import ImagePipeline.Proofs.Image.Sampling
import ImagePipeline.Proofs.Node.Sizes
import ImagePipeline.Proofs.Node.Makes
import ImagePipeline.Proofs.Node.Cropping
import ImagePipeline.Proofs.Node.Draws
import ImagePipeline.Proofs.Node.Studio
import ImagePipeline.Proofs.Run.Sizes
import ImagePipeline.Proofs.Run.Results
import ImagePipeline.Proofs.Run.Pairs
import ImagePipeline.Proofs.Run.Artifacts
import ImagePipeline.Proofs.Binary64.Accuracy
import ImagePipeline.Proofs.Image.Grey
import ImagePipeline.Proofs.Run.Alpha
import ImagePipeline.Proofs.Run.Grey
import ImagePipeline.Proofs.Binary64.Nearest
import ImagePipeline.Proofs.Image.Stretch
import ImagePipeline.Proofs.Binary64.Monotone
import ImagePipeline.Proofs.Binary64.SquareRoot
import ImagePipeline.Proofs.Image.Vignette
import ImagePipeline.Proofs.Image.Shortfall
import ImagePipeline.Proofs.Run.Contrast
import ImagePipeline.Proofs.Run.Cropping
import ImagePipeline.Proofs.File.Picture
import ImagePipeline.Proofs.Pipeline.Saving
import ImagePipeline.Proofs.Run.Messages
import ImagePipeline.Proofs.CommandLine.Session
import ImagePipeline.Proofs.Text.WellFormed
import ImagePipeline.Proofs.Definition.Decoding
import ImagePipeline.Proofs.Image.Brightness
import ImagePipeline.Proofs.Run.Brightness
import ImagePipeline.Proofs.Image.NoiseReach
import ImagePipeline.Proofs.Settings.Extension
